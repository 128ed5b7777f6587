import Mathlib.Algebra.Order.BigOperators.Group.Finset
import Mathlib.Algebra.Order.Group.Multiset
import Opal.Proofs.DistinctTexts
import Opal.Proofs.PlacedTrees

/-!
# What errors are charged to

Every error is charged to a construct around it: a declaration, a parameter or a statement. The constructs that a computation
may charge, each at most once, are its budget; the constants that were not evaluated yet are one for all.
-/

namespace Opal

open List Option

/-! ## Constructs -/

/-- A construct that errors are charged to. -/
inductive Site where
  | decl (d : Decl)
  | param (p : Param)
  | stmt (s : Stmt)

def Site.span : Site → Span
  | decl d => d.span
  | param p => p.span
  | stmt s => s.span

mutual

def Block.sites : Block → List Site
  | ⟨stmts,_⟩ => stmtSites stmts

def stmtSites : List Stmt → List Site
  | [] => []
  | s :: ss => s.sites ++ stmtSites ss

/-- A statement, unless it is a declaration, and the statements in the blocks inside. -/
def Stmt.sites : Stmt → List Site
  | ⟨_,.decl _⟩ => []
  | ⟨span,form⟩ => .stmt ⟨span,form⟩ :: form.sites

def StmtForm.sites : StmtForm → List Site
  | .decl _ | .assign .. | .expr _ | .ret _ => []
  | .cond _ t none => t.sites
  | .cond _ t (some e) => t.sites ++ e.sites
  | .loop _ b => b.sites
  | .block b => b.sites

end

def LambdaBody.sites : LambdaBody → List Site
  | .expr _ => []
  | .block b => b.sites

def ExprForm.sites : ExprForm → List Site
  | .lambda _ _ body => body.sites
  | _ => []

/-- The parameters of a declared function and the statements in its body. -/
def Decl.innerSites : Decl → List Site
  | .func d => d.params.map .param ++ d.body.sites
  | _ => []

/-- The constructs that belong to a node, and to none of the nodes inside it. -/
def Node.sites : Node → List Site
  | .expr e => e.form.sites
  | .decl d => .decl d :: d.innerSites

def Module.sites (m : Module) : List Site :=
  m.nodes.flatMap Node.sites

/-- The constructs that belong to the nodes of a list. -/
def budget (N : List Node) : Multiset Site :=
  (N.flatMap Node.sites : List Site)

@[simp] lemma budget_append (N N' : List Node) : budget (N ++ N') = budget N + budget N' := by
  simp [budget]

@[simp] lemma budget_decl (d : Decl) : budget [.decl d] = {.decl d} + (d.innerSites : Multiset Site) := by
  simp [budget, Node.sites]

lemma budget_expr (e : Expr) : budget [.expr e] = (e.form.sites : Multiset Site) := by
  simp [budget, Node.sites]

lemma budget_perm {N N' : List Node} (h : N.Perm N') : budget N = budget N' :=
  Multiset.coe_eq_coe.2 (h.flatMap_right Node.sites)

/-! ## Errors -/

/-- The error concerns something inside the region, and if it is a mismatch, then of two different types. -/
def Faults (region : Span) (e : SemanticError) : Prop :=
  e.span.Within region ∧ e.Distinct

/-- The construct can be charged with the error: this lies inside of it. A mismatch names two different types, unless
the construct returns nothing by a `return` with a value. -/
def Site.Admits (x : Site) (e : SemanticError) : Prop :=
  e.span.Within x.span ∧ (e.Distinct ∨ ∃ span v, x = .stmt ⟨span,.ret (some v)⟩ ∧ e = ⟨.typeMismatch "void" "void",v.span⟩)

/-- Whether something is wrong because two types do not fit. -/
def SemanticCause.isMismatch : SemanticCause → Bool
  | .typeMismatch .. => true
  | _ => false

variable {cause : SemanticCause} {e : SemanticError} {region span : Span}

lemma Faults.of_cause (hspan : span.Within region) (hcause : cause.isMismatch = false) : Faults region ⟨cause,span⟩ := by
  refine ⟨hspan,fun expected found h => ?_⟩
  obtain rfl : cause = .typeMismatch expected found := h
  simp [SemanticCause.isMismatch] at hcause

lemma Faults.admits {x : Site} (h : Faults region e) (hregion : region.Within x.span) : x.Admits e :=
  ⟨h.1.trans hregion,.inl h.2⟩

lemma Faults.mono {region' : Span} (h : Faults region e) (hregion : region.Within region') : Faults region' e :=
  ⟨h.1.trans hregion,h.2⟩

/-! ## Constants that were not evaluated yet -/

def Referent.isPending : Referent → Bool
  | .const _ .pending => true
  | _ => false

namespace State

def isPending (s : State) (b : BindingId) : Bool :=
  s.scopes.bindings[b]?.any (·.referent.isPending)

def owed (s : State) (b : BindingId) : Multiset Site :=
  if s.isPending b then (s.constants[b]?.toList.map fun d => Site.decl (.const d) : List Site) else 0

def pending (s : State) : Multiset Site :=
  ∑ b ∈ Finset.range s.scopes.bindings.size, s.owed b

/-- The declarations of the constants stand somewhere in the source. -/
def ConstantsPlaced (s : State) : Prop :=
  ∀ (b : BindingId) (d : ConstDecl), s.constants[b]? = some d → PlacedIn d.span d.readings

variable {s s' : State} {b : BindingId}

lemma pending_le (hsize : s'.scopes.bindings.size = s.scopes.bindings.size) (h : ∀ b, s'.owed b ≤ s.owed b) :
    s'.pending ≤ s.pending := by
  unfold pending
  rw [hsize]
  exact Finset.sum_le_sum fun b _ => h b

lemma owed_mono (hconstants : s'.constants = s.constants) (h : s'.isPending b = true → s.isPending b = true) :
    s'.owed b ≤ s.owed b := by
  unfold owed
  rw [hconstants]
  by_cases hb : s'.isPending b = true
  · rw [if_pos hb, if_pos (h hb)]
  · rw [if_neg hb]
    exact Multiset.zero_le _

lemma isPending_marked (s : State) (b b' : BindingId) (f : Referent → Referent) : (s.marked b f).isPending b' =
      s.scopes.bindings[b']?.any fun x => (if b = b' then f x.referent else x.referent).isPending := by
  have hbindings : (s.marked b f).scopes.bindings = s.scopes.bindings.modify b fun x => { x with referent := f x.referent } := rfl
  unfold isPending
  rw [hbindings, Array.getElem?_modify]
  split <;> cases s.scopes.bindings[b']? <;> rfl

lemma pending_marked_le {f : Referent → Referent} (hf : ∀ r, (f r).isPending = true → r.isPending = true) :
    (s.marked b f).pending ≤ s.pending := by
  refine pending_le (Array.size_modify ..) fun b' => owed_mono rfl fun h => ?_
  rw [isPending_marked] at h
  unfold isPending
  cases hb' : s.scopes.bindings[b']? with
  | none => rw [hb'] at h; exact h
  | some x =>
    rw [hb', any_some] at h
    rw [any_some]
    split at h
    · exact hf _ h
    · exact h

lemma pending_begin {d : ConstDecl} (hb : s.isPending b = true) (hd : s.constants[b]? = some d) :
    {.decl (.const d)} + (s.marked b (·.setConstStage .inProgress)).pending = s.pending := by
  have howed : s.owed b = {.decl (.const d)} := by
    unfold owed
    rw [if_pos hb, hd]
    rfl
  have hrange : b ∈ Finset.range s.scopes.bindings.size := by
    obtain ⟨x,hx,-⟩ := (Option.any_eq_true ..).1 hb
    exact Finset.mem_range.2 (Array.getElem?_eq_some_iff.1 hx).1
  have hsize : (s.marked b (·.setConstStage .inProgress)).scopes.bindings.size = s.scopes.bindings.size :=
    Array.size_modify ..
  have hself : (s.marked b (·.setConstStage .inProgress)).owed b = 0 := by
    refine if_neg ?_
    rw [isPending_marked]
    cases s.scopes.bindings[b]? with
    | none => simp
    | some x =>
      rw [any_some, if_pos rfl]
      cases x.referent <;> simp [Referent.setConstStage, Referent.isPending]
  unfold pending
  rw [hsize, ← Finset.add_sum_erase _ _ hrange, ← Finset.add_sum_erase _ s.owed hrange, hself, howed, zero_add]
  refine congrArg _ (Finset.sum_congr rfl fun b' hb' => ?_)
  have hother : (s.marked b (·.setConstStage .inProgress)).isPending b' = s.isPending b' := by
    rw [isPending_marked]
    simp only [if_neg (Finset.ne_of_mem_erase hb').symm, isPending]
  unfold owed
  rw [hother]
  rfl

lemma pending_push {x : Binding} (hbindings : s'.scopes.bindings = s.scopes.bindings.push x)
    (hconstants : ∀ b, b ≠ s.scopes.bindings.size → s'.constants[b]? = s.constants[b]?) :
    s'.pending = s.pending + s'.owed s.scopes.bindings.size := by
  unfold pending
  rw [hbindings, Array.size_push, Finset.sum_range_succ]
  refine congrArg (· + _) (Finset.sum_congr rfl fun b hb => ?_)
  have hlt := Finset.mem_range.1 hb
  unfold owed isPending
  rw [hbindings, Array.getElem?_push_lt hlt, Array.getElem?_eq_getElem hlt, hconstants b hlt.ne]

end State

/-! ## Charges -/

/-- The errors that are reported from one state to the next are charged to different constructs of the budget and
constants that were pending. Only nodes of `N` introduce bindings. -/
structure Charges (N : List NodeId) (S : Multiset Site) (s s' : State) : Prop where
  errors : ∃ (L : List SemanticError) (C : List Site), s'.errors.toList = s.errors.toList ++ L ∧
    Forall₂ Site.Admits C L ∧ (C : Multiset Site) + s'.pending ≤ s.pending + S
  introduces : ∀ n ∉ N, s'.introduces[n]? = s.introduces[n]?
  placed : s.ConstantsPlaced → s'.ConstantsPlaced

/-- Nothing was introduced at the nodes of `N`, which are different from each other. -/
structure Prepared (N : List NodeId) (s : State) : Prop where
  nodup : N.Nodup
  fresh : ∀ n ∈ N, s.introduces[n]? = none
  placed : s.ConstantsPlaced

namespace Charges

variable {N N' : List NodeId} {S S' : Multiset Site} {s s1 s2 : State}

lemma of_same (herrors : s1.errors = s.errors) (hintroduces : s1.introduces = s.introduces)
    (hconstants : s1.constants = s.constants) (hpending : s1.pending ≤ s.pending) : Charges [] 0 s s1 where
  errors := ⟨[],[],by rw [herrors, append_nil],.nil,by simpa using hpending⟩
  introduces _ _ := by rw [hintroduces]
  placed h := by
    unfold State.ConstantsPlaced
    rw [hconstants]
    exact h

lemma refl (s : State) : Charges [] 0 s s :=
  of_same rfl rfl rfl le_rfl

lemma mono (h : Charges N S s s1) (hN : N ⊆ N') (hS : S ≤ S') : Charges N' S' s s1 where
  errors := by
    obtain ⟨L,C,herrors,hadmits,hle⟩ := h.errors
    exact ⟨L,C,herrors,hadmits,hle.trans (add_le_add_right hS _)⟩
  introduces n hn := h.introduces n fun hmem => hn (hN hmem)
  placed := h.placed

lemma trans (h : Charges N S s s1) (h' : Charges N' S' s1 s2) : Charges (N ++ N') (S + S') s s2 where
  errors := by
    obtain ⟨L,C,herrors,hadmits,hle⟩ := h.errors
    obtain ⟨L',C',herrors',hadmits',hle'⟩ := h'.errors
    refine ⟨L ++ L',C ++ C',by rw [herrors', herrors, append_assoc],rel_append hadmits hadmits',?_⟩
    calc ((C ++ C' : List Site) : Multiset Site) + s2.pending = C + (C' + s2.pending) := by rw [← Multiset.coe_add, add_assoc]
      _ ≤ C + (s1.pending + S') := add_le_add_right hle' _
      _ = C + s1.pending + S' := (add_assoc ..).symm
      _ ≤ s.pending + S + S' := add_le_add_left hle _
      _ = s.pending + (S + S') := add_assoc ..
  introduces n hn := by
    rw [mem_append, not_or] at hn
    rw [h'.introduces n hn.2, h.introduces n hn.1]
  placed hs := h'.placed (h.placed hs)

lemma followed (h : Charges N S s s1) (h' : Charges [] 0 s1 s2) : Charges N S s s2 := by
  simpa using h.trans h'

lemma after (h : Charges [] 0 s s1) (h' : Charges N S s1 s2) : Charges N S s s2 := by
  simpa using h.trans h'

lemma report (s : State) {x : Site} (h : x.Admits e) : Charges [] {x} s (s.step (.reported e)) where
  errors := ⟨[e],[x],Array.toList_push,.cons h .nil,(add_comm _ s.pending).le⟩
  introduces _ _ := rfl
  placed h := h

lemma marked (s : State) (b : BindingId) {f : Referent → Referent}
    (hf : ∀ r, (f r).isPending = true → r.isPending = true) : Charges [] 0 s (s.marked b f) :=
  of_same rfl rfl rfl (State.pending_marked_le hf)

/-- A constant whose evaluation begins can be charged. -/
theorem evaluation {b : BindingId} {d : ConstDecl} (hb : s.isPending b = true) (hd : s.constants[b]? = some d)
    (h : Charges N (S + {.decl (.const d)}) (s.marked b (·.setConstStage .inProgress)) s1) : Charges N S s s1 where
  errors := by
    obtain ⟨L,C,herrors,hadmits,hle⟩ := h.errors
    refine ⟨L,C,herrors,hadmits,hle.trans_eq ?_⟩
    rw [← State.pending_begin hb hd, add_comm S, ← add_assoc, add_comm _ {_}]
  introduces := h.introduces
  placed := h.placed

lemma prepared (h : Charges N S s s1) (hs : Prepared (N ++ N') s) : Prepared N' s1 where
  nodup := hs.nodup.of_append_right
  fresh n hn := by
    rw [h.introduces n fun hmem => disjoint_of_nodup_append hs.nodup hmem hn]
    exact hs.fresh n (mem_append_right _ hn)
  placed := h.placed hs.placed

end Charges

namespace Prepared

variable {N N' : List NodeId} {s s' : State}

lemma subperm (h : Prepared N' s) (hN : N.Subperm N') : Prepared N s where
  nodup := by
    obtain ⟨M,hperm,hsub⟩ := hN
    exact hperm.nodup_iff.1 (h.nodup.sublist hsub)
  fresh n hn := h.fresh n (hN.subset hn)
  placed := h.placed

lemma left (h : Prepared (N ++ N') s) : Prepared N s :=
  h.subperm (sublist_append_left N N').subperm

end Prepared

/-- The steps that report nothing, and neither bind a name nor introduce one. -/
def Event.isFree : Event → Bool
  | .reported _ | .bound .. | .introduced .. | .changed .. => false
  | _ => true

lemma Charges.free (s : State) {e : Event} (h : e.isFree = true) : Charges [] 0 s (s.step e) := by
  cases e with
  | reported | bound | introduced | changed => simp [Event.isFree] at h
  | _ =>
    exact of_same rfl rfl rfl le_rfl

lemma Charges.bound (s : State) (n : BindingId) {x : Binding} (hx : x.referent.isPending = false) :
    Charges [] 0 s (s.step (.bound n x)) := by
  have hbindings : (s.step (.bound n x)).scopes.bindings = s.scopes.bindings.push x := rfl
  refine of_same rfl rfl rfl ?_
  rw [State.pending_push hbindings fun _ _ => rfl]
  have howed : (s.step (.bound n x)).owed s.scopes.bindings.size = 0 := by
    refine if_neg ?_
    rw [State.isPending, hbindings, Array.getElem?_push_size, any_some, hx]
    exact Bool.false_ne_true
  rw [howed, add_zero]

/-! ## Computations within a budget -/

/-- The errors that the computation reports are charged to different constructs of the budget and pending constants, and
an error that it stops with is as `P` says. -/
def Charged {α : Type} (P : SemanticError → Prop) (N : List NodeId) (S : Multiset Site) (m : Check α) : Prop :=
  ∀ s, Prepared N s → Charges N S s (m.run s).2 ∧ ∀ e, (m.run s).1 = .error (.error e) → P e

def ChargedRun {α : Type} (N : List NodeId) (S : Multiset Site) (x : Run α) : Prop :=
  ∀ s, Prepared N s → Charges N S s (x.run s).2

namespace Charged

variable {α β : Type} {P P' Q : SemanticError → Prop} {N N' : List NodeId} {S S' : Multiset Site} {m : Check α}
    {handler : Stop → Check α}
  {f : α → Check β}

lemma mono (h : Charged P N S m) (hN : N.Subperm N') (hS : S ≤ S') (hP : ∀ e, P e → P' e) : Charged P' N' S' m := by
  intro s hs
  obtain ⟨hcharges,hstop⟩ := h s (hs.subperm hN)
  exact ⟨hcharges.mono hN.subset hS,fun e he => hP e (hstop e he)⟩

lemma weaken (h : Charged P [] 0 m) : Charged P N S m :=
  h.mono nil_subperm (Multiset.zero_le S) fun _ he => he

lemma of_never (h : Charged (fun _ => False) N S m) : Charged P N S m :=
  h.mono (Subperm.refl N) le_rfl fun _ he => he.elim

lemma pure (a : α) : Charged P N S (Pure.pure a) :=
  Charged.weaken fun s _ => ⟨.refl s,nofun⟩

lemma blocked : Charged P N S (Check.blocked : Check α) :=
  Charged.weaken fun s _ => ⟨.refl s,nofun⟩

lemma throw {stop : Stop} (h : ∀ e, stop = .error e → P e) : Charged P N S (MonadExcept.throw stop : Check α) :=
  Charged.weaken fun s _ => ⟨.refl s,fun e he => h e (by cases he; rfl)⟩

lemma fail (h : P ⟨cause,span⟩) : Charged P N S (Check.fail cause span : Check α) :=
  .throw fun e he => by cases he; exact h

lemma fault (hspan : span.Within region)
    (hcause : cause.isMismatch = false) : Charged (Faults region) N S (Check.fail cause span : Check α) :=
  .fail (.of_cause hspan hcause)

lemma mismatch {expected found : String} (hspan : span.Within region) (hne : expected ≠ found) :
    Charged (Faults region) N S (Check.mismatch expected found span : Check α) :=
  .fail ⟨hspan,SemanticError.distinct_mismatch hne span⟩

lemma ofExcept {r : Except SemanticError α} (h : ∀ e, r = .error e → P e) : Charged P N S (Check.ofExcept r) := by
  cases r with
  | ok a => exact .pure a
  | error e => exact .throw fun e' he => by cases he; exact h e rfl

lemma bind (hm : Charged P N S m) (hf : ∀ a, Charged P N' S' (f a)) : Charged P (N ++ N') (S + S') (m >>= f) := by
  intro s hs
  obtain ⟨hcharges,hstop⟩ := hm s hs.left
  rw [Check.run_bind]
  cases hr : (m.run s).1 with
  | error stop =>
    rw [hr] at hstop
    exact ⟨hcharges.mono (subset_append_left ..) (Multiset.le_add_right ..),fun e he => hstop e (by cases he; rfl)⟩
  | ok a =>
    obtain ⟨hcharges',hstop'⟩ := hf a _ (hcharges.prepared hs)
    exact ⟨hcharges.trans hcharges',hstop'⟩

lemma after (hm : Charged P [] 0 m) (hf : ∀ a, Charged P N S (f a)) : Charged P N S (m >>= f) := by
  simpa using hm.bind hf

lemma followed (hm : Charged P N S m) (hf : ∀ a, Charged P [] 0 (f a)) : Charged P N S (m >>= f) := by
  simpa using hm.bind hf

lemma get {f : State → Check β} (h : ∀ s, Charged P N S (f s)) : Charged P N S (MonadState.get >>= f) := by
  intro s hs
  exact h s s hs

lemma ite {c : Prop} [Decidable c] {m' : Check α} (h : Charged P N S m) (h' : Charged P N S m') :
    Charged P N S (if c then m else m') := by
  split
  · exact h
  · exact h'

lemma tryCatch (hm : Charged Q N S m) (hhandler : ∀ stop, (∀ e, stop = .error e → Q e) → Charged P [] S' (handler stop)) :
    Charged P N (S + S') (MonadExcept.tryCatch m handler) := by
  intro s hs
  obtain ⟨hcharges,hstop⟩ := hm s hs
  rw [Check.run_tryCatch]
  cases hr : (m.run s).1 with
  | ok a => exact ⟨hcharges.mono (List.Subset.refl N) (Multiset.le_add_right ..),nofun⟩
  | error stop =>
    have hprepared : Prepared [] (m.run s).2 := hcharges.prepared (by simpa using hs)
    obtain ⟨hcharges',hstop'⟩ := hhandler stop (fun e he => hstop e (by rw [hr, he])) _ hprepared
    have htrans := hcharges.trans hcharges'
    rw [append_nil] at htrans
    exact ⟨htrans,hstop'⟩

lemma handled (hm : Charged Q [] 0 m) (hhandler : ∀ stop, (∀ e, stop = .error e → Q e) → Charged P [] S (handler stop)) :
    Charged P [] S (MonadExcept.tryCatch m handler) := by
  simpa using hm.tryCatch hhandler

lemma inNewScope (hm : Charged P N S m) : Charged P N S (inNewScope m) := by
  intro s hs
  have hentered := Charges.free s (e := .entered) rfl
  obtain ⟨hcharges,hstop⟩ := hm _ (hentered.prepared (by simpa using hs))
  exact ⟨(hentered.after hcharges).followed (.free _ rfl),hstop⟩

lemma lift {x : Run α} (h : ChargedRun N S x) : Charged P N S (liftM x) :=
  fun s hs => ⟨h s hs,nofun⟩

lemma mapM {f : β → Check α} : ∀ {l : List β}, (∀ b ∈ l, Charged P [] 0 (f b)) → Charged P [] 0 (l.mapM f)
  | [], _ => .pure []
  | b :: l, h => by
    rw [mapM_cons]
    refine .after (h b mem_cons_self) fun a => ?_
    exact (mapM fun b' hb' => h b' (mem_cons_of_mem _ hb')).followed fun as => .pure _

end Charged

namespace ChargedRun

variable {α β : Type} {P : SemanticError → Prop} {N N' : List NodeId} {S S' : Multiset Site} {m : Check Unit} {x : Run α}
  {f : α → Run β}

lemma mono (h : ChargedRun N S x) (hN : N.Subperm N') (hS : S ≤ S') : ChargedRun N' S' x :=
  fun s hs => (h s (hs.subperm hN)).mono hN.subset hS

lemma pure (a : α) : ChargedRun [] 0 (Pure.pure a) :=
  fun s _ => .refl s

lemma bind (hx : ChargedRun N S x) (hf : ∀ a, ChargedRun N' S' (f a)) : ChargedRun (N ++ N') (S + S') (x >>= f) :=
  fun s hs => (hx s hs.left).trans (hf _ _ ((hx s hs.left).prepared hs))

lemma after (hx : ChargedRun [] 0 x) (hf : ∀ a, ChargedRun N S (f a)) : ChargedRun N S (x >>= f) := by
  simpa using hx.bind hf

lemma followed (hx : ChargedRun N S x) (hf : ∀ a, ChargedRun [] 0 (f a)) : ChargedRun N S (x >>= f) := by
  simpa using hx.bind hf

lemma perform {e : Event} (h : e.isFree = true) : ChargedRun [] 0 (perform e) :=
  fun s _ => .free s h

lemma recordType (id : NodeId) (t : Ty) : ChargedRun [] 0 (recordType id t) :=
  .perform rfl

lemma built (t : Ty) : ChargedRun [] 0 (built t) :=
  (perform rfl).followed fun _ => .pure t

lemma currentScope : ChargedRun [] 0 currentScope :=
  fun s _ => .refl s

lemma resultType : ChargedRun [] 0 resultType :=
  fun s _ => .refl s

lemma modifyReferent (b : BindingId) {f : Referent → Referent}
    (hf : ∀ r, (f r).isPending = true → r.isPending = true) : ChargedRun [] 0 (modifyReferent b f) :=
  fun s _ => .marked s b hf

lemma returning {x : Run Unit} (ret : Ty) (hx : ChargedRun N S x) : ChargedRun N S (returning ret x) :=
  (perform rfl).after fun _ => hx.followed fun _ => .perform rfl

lemma reported {site : Site} (hm : Charged P N S m) (hP : ∀ e, P e → site.Admits e) :
    ChargedRun N (S + {site}) (reported m) := by
  intro s hs
  obtain ⟨hcharges,hstop⟩ := hm s hs
  rw [run_reported]
  cases hr : (m.run s).1 with
  | ok a => exact hcharges.mono (List.Subset.refl N) (Multiset.le_add_right ..)
  | error stop =>
    cases stop with
    | blocked => exact (hcharges.followed (.free _ rfl)).mono (List.Subset.refl N) (Multiset.le_add_right ..)
    | error e =>
      have htrans := hcharges.trans (Charges.report _ (hP e (hstop e hr)))
      rw [append_nil] at htrans
      exact htrans

lemma reported_never (hm : Charged (fun _ => False) N S m) : ChargedRun N S (Opal.reported m) := by
  intro s hs
  obtain ⟨hcharges,hstop⟩ := hm s hs
  rw [run_reported]
  cases hr : (m.run s).1 with
  | ok a => exact hcharges
  | error stop =>
    cases stop with
    | blocked => exact hcharges.followed (.free _ rfl)
    | error e => exact (hstop e hr).elim

end ChargedRun

end Opal
