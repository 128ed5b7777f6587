import Opal.Proofs.ContextualExpressions

/-!
# Balanced checks

Whatever is examined, and however that ends, the frame of the state stays. So a body is examined under the result type of its
own function throughout.
-/

namespace Opal

/-! ## The frame stays -/

section Frames

variable {α : Type} {R : α → α → Prop} {opens : String → Prop}

lemma Likeness.Agree.frames {m : Check α} (h : SelfLikeness.loose.Agree R m m opens) (s : State) :
    s.Frames opens (m.run s).2 := by
  have hends := h.ends (State.Resembles.refl s)
  generalize m.run s = r at hends ⊢
  cases hends with
  | result hle hrel => exact hrel.1 ▸ hle
  | stopped h => exact h.2.1
  | alone h => exact h.elim

lemma Likeness.RunAgree.frames {x : Run α} (h : SelfLikeness.loose.RunAgree R x x opens) (s : State) :
    s.Frames opens (x.run s).2 :=
  (h.ends (State.Resembles.refl s)).1

end Frames

lemma Stmt.like_self (st : Stmt) : st.Like SelfLikeness.loose.toLikeness st :=
  (List.forall₂_cons.1 (stmts_like_self [st])).1

/-! ## Return statements -/

/-- A `return` statement with a value is held against `ret`. -/
def returnAgainst (ret : Ty) (value : Operand) : Check Unit := do
  if ret = .void then
    let found ← value.value none
    Check.mismatch "void" found.display value.expr.span
  else
    let _ ← value.against ret

mutual

/-- The check of a block in which `return` statements are held against `ret`. Functions and lambdas in it are checked by
themselves. -/
def Block.checkReturning (ret : Ty) : Block → Run Unit
  | ⟨stmts,span⟩ => do
    declareAll (Block.mk stmts span).decls
    checkStmtsReturning ret stmts

def checkStmtsReturning (ret : Ty) : List Stmt → Run Unit
  | [] => pure ()
  | s :: ss => do
    reported (s.checkReturning ret)
    checkStmtsReturning ret ss

def Stmt.checkReturning (ret : Ty) : Stmt → Check Unit
  | ⟨span,form⟩ => form.checkReturning ret span

def StmtForm.checkReturning (ret : Ty) : StmtForm → Span → Check Unit
  | .ret none, span => if ret = .void then pure () else Check.mismatch ret.display "void" span
  | .ret (some e), _ => returnAgainst ret e.operand
  | .cond c t none, _ => ifStmt c.operand (t.checkReturning ret)
  | .cond c t (some e), _ => ifElseStmt c.operand (t.checkReturning ret) (e.checkReturning ret)
  | .loop c b, _ => whileStmt c.operand (b.checkReturning ret)
  | .block b, _ => blockStmt (b.checkReturning ret)
  | .decl d, _ => d.check
  | .assign target value, _ => assignStmt target.operand value.operand
  | .expr e, _ => exprStmt e.operand

end

variable {ret : Ty}

/-- The two computations are the same one inside of a function with result type `ret`. -/
def SameInside (ret : Ty) {α : Type} (x x' : Run α) : Prop :=
  ∀ s : State, s.resultTypes.head? = some ret → x.run s = x'.run s

namespace SameInside

variable {α β : Type} {x x' : Run Unit}

lemma refl (x : Run α) : SameInside ret x x :=
  fun _ _ => rfl

/-- What comes first leaves the result type. -/
theorem andThen {x x' : Run α} {f g : α → Run β} (hx : SameInside ret x x')
    (hkept : ∀ s, (x.run s).2.resultTypes = s.resultTypes) (hf : ∀ a, SameInside ret (f a) (g a)) :
    SameInside ret (x >>= f) (x' >>= g) := by
  intro s hs
  have h := hf (x.run s).1 (x.run s).2 ((congrArg List.head? (hkept s)).trans hs)
  change (f (x.run s).1).run (x.run s).2 = (g (x'.run s).1).run (x'.run s).2
  rw [← hx s hs, h]

lemma bind {m m' : Check α} {f g : α → Check β} (hm : SameInside ret m.run m'.run)
    (hkept : ∀ s, (m.run s).2.resultTypes = s.resultTypes) (hf : ∀ a, SameInside ret (f a).run (g a).run) :
    SameInside ret (m >>= f).run (m' >>= g).run :=
  andThen (f := ExceptT.bindCont f) (g := ExceptT.bindCont g) hm hkept fun r => by
    cases r with
    | ok a => exact hf a
    | error => exact refl _

lemma reported {m m' : Check Unit} (h : SameInside ret m.run m'.run) : SameInside ret (Opal.reported m) (Opal.reported m') := by
  intro s hs
  have hrun := h s hs
  rw [run_reported, run_reported, show m.run s = m'.run s from hrun]

lemma blockStmt (h : SameInside ret x x') : SameInside ret (Opal.blockStmt x).run (Opal.blockStmt x').run :=
  fun s hs => congrArg (fun r : Unit × State => (Except.ok r.1, r.2.step .left)) (h (s.step .entered) hs)

lemma ifStmt (c : Expr) (h : SameInside ret x x') :
    SameInside ret (Opal.ifStmt c.operand x).run (Opal.ifStmt c.operand x').run :=
  bind (refl _) (fun s => ((c.like_self.operand.against .bool).frames s).resultTypes) fun _ => h.blockStmt

/-- The result type is at hand inside of a function. -/
theorem resultType {f : Ty → Check α} : SameInside ret (liftM Opal.resultType >>= f).run (f ret).run := by
  intro s hs
  change (f (s.resultTypes.head?.getD .void)).run s = _
  rw [hs]
  rfl

end SameInside

mutual

lemma Block.check_sameInside : ∀ b : Block, SameInside ret b.check (b.checkReturning ret)
  | ⟨stmts,span⟩ => by
    have hdeclare : SelfLikeness.loose.RunAgree Eq _ _ fun _ => True :=
      declareAll_agree (Block.mk stmts span).like_self.decls fun _ _ => trivial
    exact .andThen (.refl _) (fun s => (hdeclare.frames s).resultTypes) fun _ => checkStmts_sameInside stmts

lemma checkStmts_sameInside : ∀ stmts : List Stmt, SameInside ret (checkStmts stmts) (checkStmtsReturning ret stmts)
  | [] => .refl _
  | st :: stmts => .andThen st.check_sameInside.reported
      (fun s => ((Likeness.RunAgree.reported st.like_self.check_agree).frames s).resultTypes) fun _ =>
        checkStmts_sameInside stmts

lemma Stmt.check_sameInside : ∀ st : Stmt, SameInside ret st.check.run (st.checkReturning ret).run
  | ⟨_,.ret none⟩ | ⟨_,.ret (some _)⟩ => .resultType
  | ⟨_,.cond c t none⟩ => .ifStmt c t.check_sameInside
  | ⟨_,.cond c t (some e)⟩ => .bind (.ifStmt c t.check_sameInside)
      (fun s => ((ifStmt_agree c.like_self.operand t.like_self.check_agree).frames s).resultTypes) fun _ s hs =>
        congrArg (fun r : Unit × State => (Except.ok r.1, r.2)) (e.check_sameInside.reported s hs)
  | ⟨_,.loop c b⟩ => .ifStmt c b.check_sameInside
  | ⟨_,.block b⟩ => .blockStmt b.check_sameInside
  | ⟨_,.decl _⟩ | ⟨_,.assign _ _⟩ | ⟨_,.expr _⟩ => .refl _

end

lemma run_returning (b : Block) (ret : Ty) (s : State) :
    (returning ret b.check).run s = (returning ret (b.checkReturning ret)).run s :=
  congrArg (fun r : Unit × State => ((), r.2.step .returned)) (b.check_sameInside (s.step (.called ret)) rfl)

lemma run_funDecl (params : List Param) (body : Block) {s : State} {b : BindingId} {ts : List Ty} {ret : Ty}
    {fs : List Formal} (hr : s.referent? b = some (.func (.function ts ret) fs)) :
    (funDecl params body.check b).run s = (funDecl params (body.checkReturning ret) b).run s := by
  have hrun (x : Run Unit) : (funDecl params x b).run s =
      (.ok (), ((returning ret x).run ((declareParams s.scopes.parents.size params fs).run (s.step .entered)).2).2.step .left) := by
    unfold funDecl
    rw [Check.run_bind, run_referentOf hr]
    rfl
  rw [hrun, hrun, run_returning]

/-- Every examination leaves the frame of the state as it is, from whichever state it starts and however it ends; only a block
declares names in the current scope, which are those of its own declarations. So `return` statements are held against the
result type of the function or the lambda around them. -/
theorem checks_balanced (s : State) :
    (∀ (e : Expr) (expected : Option Ty), s.Frames (fun _ => False) ((e.operand.value expected).run s).2) ∧
    (∀ (e : Expr) (use : PlacePurpose), s.Frames (fun _ => False) ((e.operand.place use).run s).2) ∧
    (∀ st : Stmt, s.Frames (fun _ => False) (st.check.run s).2) ∧
    (∀ stmts : List Stmt, s.Frames (fun _ => False) ((checkStmts stmts).run s).2) ∧
    (∀ b : Block, s.Frames (· ∈ b.decls.map Decl.name) (b.check.run s).2) ∧
    (∀ d : Decl, s.Frames (fun _ => False) (d.check.run s).2) ∧
    (∀ b : BindingId, s.Frames (fun _ => False) ((constantValue b).run s).2) ∧
    (∀ (t : TypeExpr) (scope : ScopeId) (position : Position),
      s.Frames (fun _ => False) ((t.denote constantValue scope position).run s).2) ∧
    (∀ (b : Block) (known : Option Ty), ((LambdaBody.block b).check known).run s =
      (blockBody (b.checkReturning (known.getD .void)) known).run s) ∧
    (∀ (d : FunDecl) (b : BindingId) (params : List Ty) (ret : Ty) (fs : List Formal), s.introduces[d.id]? = some b →
      s.referent? b = some (.func (.function params ret) fs) →
      d.check.run s = (funDecl d.params (d.body.checkReturning ret) b).run s) := by
  refine ⟨fun e expected => (e.like_self.operand.value expected).frames s,fun e use => (e.like_self.operand.place use).frames s,
    fun st => st.like_self.check_agree.frames s,fun stmts => (checkStmts_agree stmts (stmts_like_self stmts)).frames s,
    fun b => b.like_self.check_agree.frames s,fun d => d.like_self.check_agree.frames s,
    fun b => (constantValue_agree b).frames s,
    fun t scope position => (t.like_self.denote_agree scope constantValue_agree position).frames s,?_,?_⟩
  · intro b known
    exact congrArg (fun r : Unit × State => (Except.ok (known.getD .void), r.2)) (run_returning b _ s)
  · rintro ⟨⟩ b params ret fs hb hr
    rw [FunDecl.check, run_ifAccepted, hb]
    exact run_funDecl _ _ hr

end Opal
