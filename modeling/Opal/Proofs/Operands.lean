import Opal.Check.Operators
import Opal.Proofs.ConstantEvaluation

/-!
# The examination of operands

What is known of an expression after it was examined, as a value or as a storage location. A rule knows of its operands only
this.
-/

namespace Opal

open Findings (Agrees)

/-- Everything is recorded about the nodes of `N`, unless something is wrong. -/
def Findings.Covers (f : Findings) (N : List Node) : Prop :=
  ¬ f.Failing → f.Complete N

namespace Findings.Covers

variable {f f' : Findings} {N N1 N2 : List Node}

lemma nil : f.Covers [] := fun _ => .nil

lemma append (h1 : f.Covers N1) (h2 : f.Covers N2) : f.Covers (N1 ++ N2) :=
  fun hf => (h1 hf).append (h2 hf)

lemma perm (h : f.Covers N1) (hp : N1.Perm N2) : f.Covers N2 :=
  fun hf => (h hf).perm hp

lemma flatMap {α : Type} {nodes : α → List Node} : ∀ {l : List α}, (∀ a ∈ l, f.Covers (nodes a)) → f.Covers (l.flatMap nodes)
  | [], _ => nil
  | a :: _, h => (h a List.mem_cons_self).append (flatMap fun a' ha' => h a' (List.mem_cons_of_mem _ ha'))

lemma agrees [Closed N] (h : f.Covers N) (ha : Agrees N f f') : f'.Covers N :=
  fun hf => (h fun hf' => hf (ha.errors hf')).agrees ha

end Findings.Covers

/-- An expression was examined as a value, where a type may be expected. -/
structure HasType (e : Expr) (expected : Option Ty) (t : Ty) (s : State) : Prop where
  typed : s.typeAt e = some t
  result : t.isResult = true
  contextual : e.isContextual = true → ∃ i, expected = some (.int i) ∧ t = .int i
  covers : s.Covers e.nodes

/-- The rule of an expression gives its type, which is to be noted. -/
structure GivesType (e : Expr) (expected : Option Ty) (t : Ty) (s : State) : Prop where
  obeys : s.Obeys e t
  result : t.isResult = true
  contextual : e.isContextual = true → ∃ i, expected = some (.int i) ∧ t = .int i
  completable : ¬ s.Failing → s.Completable e

/-- An expression was examined as a storage location. -/
structure IsPlace (e : Expr) (p : Place) (s : State) : Prop where
  typed : s.typeAt e = some p.type
  value : p.type.isValue = true
  mutability : e.mutability s.toFindings = some p.mutable
  covers : s.Covers e.nodes

/-- The rule of an expression gives its storage location, whose type is to be noted. -/
structure GivesPlace (e : Expr) (p : Place) (s : State) : Prop where
  obeys : s.Obeys e p.type
  value : p.type.isValue = true
  mutability : e.mutability s.toFindings = some p.mutable
  completable : ¬ s.Failing → s.Completable e

section

variable {e : Expr} {expected : Option Ty} {t : Ty} {p : Place} {s s' : State}

lemma HasType.agrees (h : HasType e expected t s)
    (ha : Agrees e.nodes s.toFindings s'.toFindings) : HasType e expected t s' where
  typed := (ha.typeAt e.self_mem_nodes).trans h.typed
  result := h.result
  contextual := h.contextual
  covers := h.covers.agrees ha

lemma IsPlace.agrees (h : IsPlace e p s) (ha : Agrees e.nodes s.toFindings s'.toFindings) : IsPlace e p s' where
  typed := (ha.typeAt e.self_mem_nodes).trans h.typed
  value := h.value
  mutability := e.mutability_agrees ha (List.Subset.refl _) h.mutability
  covers := h.covers.agrees ha

section

variable (hname : ∀ name, e.form ≠ .name name) (hskips : e.skips s.toFindings = [])
include hname hskips

lemma GivesType.of_parts (hobeys : s.Obeys e t) (hresult : t.isResult = true)
    (hcontextual : e.isContextual = true → ∃ i, expected = some (.int i) ∧ t = .int i)
    (hcovers : s.Covers e.form.nodes) : GivesType e expected t s where
  obeys := hobeys
  result := hresult
  contextual := hcontextual
  completable hf := .of_parts (hcovers hf) hskips fun name hform => absurd hform (hname name)

lemma GivesPlace.of_parts (hobeys : s.Obeys e p.type) (hvalue : p.type.isValue = true)
    (hmut : e.mutability s.toFindings = some p.mutable) (hcovers : s.Covers e.form.nodes) : GivesPlace e p s where
  obeys := hobeys
  value := hvalue
  mutability := hmut
  completable hf := .of_parts (hcovers hf) hskips fun name hform => absurd hform (hname name)

end

lemma typeAt_recorded_self (s : State) (e : Expr) (t : Ty) : (s.recorded e.id t).typeAt e = some t := by
  rw [Findings.typeAt, typeOf_recorded, if_pos rfl]

lemma GivesType.recorded (h : GivesType e expected t s) (hid : e.id ∉ e.form.nodes.map Node.id) :
    HasType e expected t (s.recorded e.id t) :=
  ⟨typeAt_recorded_self s e t,h.result,h.contextual,fun hf => (h.completable hf).recorded hid t⟩

lemma GivesPlace.recorded (h : GivesPlace e p s) (hid : e.id ∉ e.form.nodes.map Node.id) :
    IsPlace e p (s.recorded e.id p.type) := by
  refine ⟨typeAt_recorded_self s e _,h.value,?_,fun hf => (h.completable hf).recorded hid _⟩
  have hmut := h.mutability
  obtain ⟨id,span,form⟩ := e
  exact form.mutability_agrees (agrees_recorded hid p.type) rfl (List.Subset.refl _) hmut

lemma Meets.typed {m : Check Ty} (hready : Ready e.nodes s) (hm : Meets e.form.nodes s m (GivesType e expected)) :
    Meets e.nodes s (do
        let t ← m
        recordType e.id t
        return t) (HasType e expected) :=
  hm.record id hready (fun _ _ h => ⟨h.obeys,h.result⟩) fun _ _ _ h => h.recorded hready.id_notMem

lemma Meets.placed {m : Check Place} (hready : Ready e.nodes s) (hm : Meets e.form.nodes s m (GivesPlace e)) : Meets e.nodes s
      (do
        let p ← m
        recordType e.id p.type
        return p) (IsPlace e) :=
  hm.record Place.type hready (fun _ _ h => ⟨h.obeys,Ty.isResult_of_isValue h.value⟩) fun _ _ _ h => h.recorded hready.id_notMem

end

/-- An operand whose examinations achieve what they should. -/
structure Operand.Examined (o : Operand) : Prop where
  value : ∀ expected s, Ready o.expr.nodes s → Calm s → Expects expected →
    Meets o.expr.nodes s (o.value expected) (HasType o.expr expected)
  place : ∀ use s, Ready o.expr.nodes s → Calm s → Meets o.expr.nodes s (o.place use) (IsPlace o.expr)
  /-- A name, in parentheses or not, refers to what is found in the current scope. -/
  names : ∀ name b expected s, o.expr.withoutParens.form = .name name → Ready o.expr.nodes s →
    Calm s → s.scopes.lookup s.scopes.current name o.expr.withoutParens.span = .ok b →
      ((o.value expected).run s).2.refersTo[o.expr.withoutParens.id]? = some b

/-- The examination of a statement achieves what it should, if `N` are its nodes. -/
def Checks (N : List Node) (m : Check Unit) : Prop :=
  ∀ s, Ready N s → Calm s → Meets N s m fun _ s' => s'.Covers N

/-- The examination of a block achieves what it should, if `N` are its nodes. -/
def Examines (N : List Node) (m : Run Unit) : Prop :=
  ∀ s, Ready N s → Calm s → Runs N [] s m fun s' => s'.Covers N

/-! ## The rules of operators -/

section

variable {o l r : Operand} {s : State} {expected : Option Ty} {id : NodeId} {span : Span}

lemma Operand.Examined.against (ho : o.Examined) (hready : Ready o.expr.nodes s) (hcalm : Calm s)
    {t : Ty} (ht : t.isResult = true) :
    Meets o.expr.nodes s (o.against t) fun found s' =>
      HasType o.expr (some t) found s' ∧ (Ty.fit found t).ok = true := by
  refine (ho.value (some t) s hready hcalm (.some ht)).andThen hready fun found s1 hstep hfound => ?_
  have hnil := Ready.nil hstep.sound
  exact .ite (fun hfit => .pure hnil fun _ => ⟨hfound,hfit⟩) fun _ => .mismatch hnil _ _ _

section

variable (hl : l.Examined) (hr : r.Examined) (hready : Ready (l.expr.nodes ++ r.expr.nodes) s)
include hl hr hready

lemma operandTypes_meets (hcalm : Calm s) (hexp : Expects expected) (op : BinaryOp) :
    Meets (l.expr.nodes ++ r.expr.nodes) s (operandTypes op l r expected) fun t s' =>
      HasType l.expr (if r.expr.isContextual then op.firstExpected expected else some t.2) t.1 s' ∧
        ∃ expected', HasType r.expr expected' t.2 s' := by
  have hfirst := hexp.firstExpected op
  refine .ite (fun h => ?_) fun h => ?_
  · have hready' := hready.perm List.perm_append_comm
    refine Meets.perm (Meets.bind hready' (hr.value _ s hready'.left hcalm hfirst)
      fun tr s1 hstep htr => ?_) List.perm_append_comm fun _ _ h => h.swap hready'.nodup
    refine Meets.thenPure (hready'.right hstep)
      (hl.value (some tr) s1 (hready'.right hstep) (hcalm.step hstep) (.some htr.result)) ?_
    intro tl s2 _ htl ha
    rw [Bool.and_eq_true, Bool.not_eq_true'] at h
    rw [h.2]
    exact ⟨htl,_,htr.agrees ha⟩
  · refine Meets.bind hready (hl.value _ s hready.left hcalm hfirst) fun tl s1 hstep htl => ?_
    refine Meets.thenPure (hready.right hstep)
      (hr.value (some tl) s1 (hready.right hstep) (hcalm.step hstep) (.some htl.result)) ?_
    intro tr s2 _ htr ha
    have htl := htl.agrees ha
    refine ⟨⟨htl.typed,htl.result,fun hctx => ?_,htl.covers⟩,_,htr⟩
    rw [if_pos]
    · exact htl.contextual hctx
    · simpa [hctx] using h

lemma binaryValue_meets (hcalm : Calm s) (hexp : Expects expected) (op : BinaryOp) :
    Meets (l.expr.nodes ++ r.expr.nodes) s (binaryValue op l r expected)
      (GivesType ⟨id,span,.binary op l.expr r.expr⟩ expected) := by
  refine (operandTypes_meets hl hr hready hcalm hexp op).andThen hready fun t s1 hstep ht => ?_
  obtain ⟨tl,tr⟩ := t
  obtain ⟨htl,expected',htr⟩ := ht
  have hnil := Ready.nil hstep.sound
  refine .ite (fun _ => .mismatch hnil _ _ _) fun haccepts =>
    .ite (fun _ => .mismatch hnil _ _ _) fun hfit => .pure hnil fun _ => ?_
  have heq : tr = tl := Ty.eq_of_fit_equal htr.result htl.result (by simpa using hfit)
  have haccepts : op.accepts tl = true := by
    simpa [Ty.ne_error_of_isResult htl.result] using haccepts
  refine .of_parts (by simp) rfl ?_ ?_ ?_ ?_
  · exact Findings.obeysBinary_of_accepts haccepts htl.typed (htr.typed.trans (congrArg _ heq))
  · split
    · exact htl.result
    · rfl
  · intro hctx
    simp only [Expr.isContextual, ExprForm.isContextual, Bool.and_eq_true] at hctx
    obtain ⟨⟨harith,hlctx⟩,hrctx⟩ := hctx
    rw [if_pos harith]
    have := htl.contextual hlctx
    rwa [if_pos hrctx, BinaryOp.firstExpected, if_pos harith] at this
  · rw [ExprForm.nodes]
    exact htl.covers.append htr.covers

end

lemma negatedLiteralValue_meets {text : String} (hlit : o.expr.literal? = some text)
    (hready : Ready (Expr.mk id span (.unary .neg o.expr)).nodes s) (hexp : Expects expected) :
    Meets (Expr.mk id span (.unary .neg o.expr)).nodes s (do
        let t ← negationValue o span expected
        recordType id t
        return t) (HasType ⟨id,span,.unary .neg o.expr⟩ expected) := by
  have hneg : negationValue o span expected = (do
        let v ← literalOfType text true expected span
        recordType o.expr.id v.type
        return v.type : Check Ty) := by
    unfold negationValue
    rw [hlit]
  rw [hneg, bind_assoc]
  refine negatedLiteral_meets hready hlit hexp fun n i hexpected hi hgives hstep => ?_
  have htype : GivesType ⟨id,span,.unary .neg o.expr⟩ expected (.int i) (s.recorded o.expr.id (.int i)) :=
    ⟨hgives.obeys,rfl,fun _ => ⟨i,hexpected,rfl⟩,fun _ => hgives.completable⟩
  exact ⟨hstep,htype.recorded hready.id_notMem⟩

lemma negationValue_meets (ho : o.Examined) (hlit : o.expr.literal? = none)
    (hready : Ready o.expr.nodes s) (hcalm : Calm s) (hexp : Expects expected) :
    Meets o.expr.nodes s (negationValue o span expected) (GivesType ⟨id,span,.unary .neg o.expr⟩ expected) := by
  unfold negationValue
  rw [hlit]
  refine (ho.value expected s hready hcalm hexp).andThen hready fun t s1 hstep ht => ?_
  have hnil := Ready.nil hstep.sound
  cases t with
  | int i =>
    refine .ite (fun hsigned => .pure hnil fun _ => ?_) fun _ => .mismatch hnil _ _ _
    refine .of_parts (by simp) (by simp [Expr.skips, hlit]) ?_ rfl (fun hctx => ?_) ?_
    · refine ⟨ht.typed,i,rfl,?_⟩
      simpa only [hlit] using hsigned
    · simp only [Expr.isContextual, ExprForm.isContextual] at hctx
      exact ht.contextual hctx
    · rw [ExprForm.nodes]; exact ht.covers
  | error => exact absurd ht.result (by decide)
  | _ => exact .mismatch hnil _ _ _

section

variable (ho : o.Examined) (hready : Ready o.expr.nodes s) (hcalm : Calm s)
include ho hready hcalm

lemma complementValue_meets : Meets o.expr.nodes s (complementValue o) (GivesType ⟨id,span,.unary .not o.expr⟩ expected) := by
  refine (ho.against hready hcalm rfl).thenPure hready ?_
  rintro t s1 - ⟨ht,hfit⟩
  refine .of_parts (by simp) rfl ⟨rfl,?_⟩ rfl (by simp [Expr.isContextual, ExprForm.isContextual]) ?_
  · rw [ht.typed, Ty.eq_bool_of_fit ht.result hfit]
  · rw [ExprForm.nodes]; exact ht.covers

lemma addressValue_meets : Meets o.expr.nodes s (addressValue o) (GivesType ⟨id,span,.addressOf o.expr⟩ expected) := by
  refine Meets.built hready (ho.place .addressOf s hready hcalm) ?_
  intro p s1 hp
  have hp := hp.agrees (agrees_step s1 _ (e := .built (.reference p.mutable p.type)) rfl)
  refine .of_parts (by simp) rfl ?_ ?_ (by simp [Expr.isContextual, ExprForm.isContextual]) ?_
  · exact ⟨p.mutable,p.type,hp.typed,hp.mutability,rfl⟩
  · exact Ty.isResult_of_isValue (by rw [Ty.isValue]; exact hp.value)
  · rw [ExprForm.nodes]; exact hp.covers

lemma derefPlace_meets : Meets o.expr.nodes s (derefPlace o) (GivesPlace ⟨id,span,.deref o.expr⟩) := by
  refine (ho.value none s hready hcalm .none).andThen hready fun t s1 hstep ht => ?_
  have hnil := Ready.nil hstep.sound
  cases t with
  | reference mutable target =>
    refine .pure hnil fun _ => .of_parts (by simp) rfl ⟨mutable,ht.typed⟩ ?_ ?_ ?_
    · have := Ty.isValue_of_isResult ht.result (by simp)
      rwa [Ty.isValue] at this
    · rw [Expr.mutability, ExprForm.mutability, ht.typed]
      rfl
    · rw [ExprForm.nodes]; exact ht.covers
  | _ => exact .mismatch hnil _ _ _

end

lemma GivesPlace.givesType {e : Expr} {p : Place} (h : GivesPlace e p s)
    (hctx : e.isContextual = false) : GivesType e expected p.type s where
  obeys := h.obeys
  result := Ty.isResult_of_isValue h.value
  contextual hc := by rw [hctx] at hc; cases hc
  completable := h.completable

lemma derefValue_meets (ho : o.Examined) (hready : Ready o.expr.nodes s) (hcalm : Calm s) :
    Meets o.expr.nodes s (derefValue o) (GivesType ⟨id,span,.deref o.expr⟩ expected) :=
  (derefPlace_meets ho hready hcalm).thenPure hready fun _ _ _ hp =>
    hp.givesType (by simp [Expr.isContextual, ExprForm.isContextual])

variable {base index : Operand}

lemma elementType_meets (hindex : index.Examined) (hready : Ready index.expr.nodes s)
    (hcalm : Calm s) (t : Ty) (ht : t.isResult = true) (span : Span) :
    Meets index.expr.nodes s (elementType t span index) fun element s' =>
      ∃ n i, t = .array element n ∧ element.isValue = true ∧ s'.typeAt index.expr = some (.int i) ∧
        s'.Covers index.expr.nodes := by
  cases t with
  | array element n =>
    have hvalue : element.isValue = true := by
      have := Ty.isValue_of_isResult ht (by simp)
      rwa [Ty.isValue] at this
    refine .ite (fun hctx => ?_) fun _ => ?_
    · refine (hindex.value (some (.int .u32)) s hready hcalm (.some rfl)).thenPure hready ?_
      intro u s1 _ hu
      obtain ⟨i,-,rfl⟩ := hu.contextual hctx
      exact ⟨n,i,rfl,hvalue,hu.typed,hu.covers⟩
    · refine (hindex.value none s hready hcalm .none).andThen hready fun u s1 hstep hu => ?_
      have hnil := Ready.nil hstep.sound
      refine .ite (fun hint => .pure hnil fun _ => ?_) fun _ => .mismatch hnil _ _ _
      obtain ⟨i,rfl⟩ := Ty.eq_int_of_isInt hint
      exact ⟨n,i,rfl,hvalue,hu.typed,hu.covers⟩
  | _ => exact .mismatch hready _ _ _

section

variable (hbase : base.Examined) (hindex : index.Examined) (hready : Ready (base.expr.nodes ++ index.expr.nodes) s)
include hbase hindex hready

lemma indexValue_meets (hcalm : Calm s) : Meets (base.expr.nodes ++ index.expr.nodes) s (indexValue base index)
      (GivesType ⟨id,span,.index base.expr index.expr⟩ expected) := by
  refine Meets.bind hready (hbase.value none s hready.left hcalm .none) fun t s1 hstep ht => ?_
  refine (elementType_meets hindex (hready.right hstep) (hcalm.step hstep) t ht.result _).mono ?_
  rintro element s2 - ⟨n,i,rfl,hvalue,hindex,hcovers⟩ ha
  have ht := ht.agrees ha
  refine .of_parts (by simp) rfl ⟨n,i,ht.typed,hindex⟩ (Ty.isResult_of_isValue hvalue)
    (by simp [Expr.isContextual, ExprForm.isContextual]) ?_
  exact ht.covers.append hcovers

lemma indexPlace_meets (hcalm : Calm s) (use : PlacePurpose) :
    Meets (base.expr.nodes ++ index.expr.nodes) s (indexPlace base index use)
      (GivesPlace ⟨id,span,.index base.expr index.expr⟩) := by
  refine Meets.bind hready (hbase.place use s hready.left hcalm) fun p s1 hstep hp => ?_
  refine Meets.thenPure (hready.right hstep) (elementType_meets hindex (hready.right hstep)
    (hcalm.step hstep) p.type (Ty.isResult_of_isValue hp.value) _) ?_
  rintro element s2 - ⟨n,i,hptype,hvalue,hindex,hcovers⟩ ha
  have hp := hp.agrees ha
  refine .of_parts (by simp) rfl ⟨n,i,hptype ▸ hp.typed,hindex⟩ hvalue ?_ ?_
  · rw [Expr.mutability, ExprForm.mutability]
    exact hp.mutability
  · rw [ExprForm.nodes]
    exact hp.covers.append hcovers

end

end

/-! ## Names -/

section

variable {N : List Node} {s : State} {b : BindingId} {r : Referent} {id : NodeId} {name : String} {span : Span}

/-- What is read by a name has the type of a value, which is the type of its binding from then on. -/
theorem readBinding_meets (hs : Sound s) (hcalm : Calm s) (hr : s.referent? b = some r) (name : String) (span : Span) :
    Meets [] s (readBinding b name span) fun t s' =>
      t.isValue = true ∧ ∃ r', s'.referent? b = some r' ∧ r'.type? = some t := by
  have hnil := Ready.nil hs
  have hwf := hs.wellFormed b r hr
  refine Meets.read (run_referentOf hr) ?_
  cases r with
  | var type mutable stage =>
    cases stage with
    | initialized =>
      obtain ⟨t,rfl,ht⟩ := hwf
      exact .pure hnil ⟨ht,_,hr,rfl⟩
    | failed => cases type <;> exact .blocked hnil hwf.1
    | declared | initializing => cases type <;> exact .fail hnil _ _
  | const type stage =>
    have hstage : stage ≠ .inProgress := by
      rintro rfl
      exact hcalm.idle b type hr
    refine (supplies_constantValue.meets s b type stage hs trivial hr hstage).thenPure hnil ?_
    rintro v s1 hstep ⟨type',hv⟩
    refine ⟨Ty.isValue_of_isResult v.isResult_type (by cases v <;> simp [Value.type]),_,hv,?_⟩
    exact hstep.sound.wellFormed b _ hv
  | func t params =>
    refine .ite (fun herror => .blocked hnil ?_) fun hne => .pure hnil ⟨?_,_,hr,rfl⟩
    · exact hcalm.signatures b params (herror ▸ hr)
    · rcases hwf with ⟨rfl,-⟩ | ⟨ret,-,ht⟩
      · exact absurd rfl hne
      · exact ht

lemma bindingNamed_meets (h : Ready N s) (hid : id ∈ N.map Node.id) (name : String) (span : Span) :
    Meets N s (bindingNamed id name span) fun b s' =>
      Ready N s' ∧ s.scopes.lookup s.scopes.current name span = .ok b ∧ ∃ r, s.referent? b = some r ∧ s' = s.resolved id b :=
  Meets.read rfl (Meets.findFrom h hid s.scopes.current name span)

lemma referentAt_read {s' : State} (hready : Ready N (s.resolved id b))
    (hid : id ∈ N.map Node.id) (hstep : Advances [] [] (s.resolved id b) s')
    (hr : s'.referent? b = some r) : s'.referentAt id = some r := by
  refine Option.bind_eq_some_iff.2 ⟨b,?_,hr⟩
  rw [hstep.refersTo_kept hready hid, refersTo_resolved, if_pos rfl]

lemma completable_name (hat : s.referentAt id = some r) : s.Completable ⟨id,span,.name name⟩ := by
  refine .of_parts ?_ rfl fun _ _ => ?_
  · rw [ExprForm.nodes]
    exact .nil
  · rw [hat]
    rfl

lemma readName_meets {expected : Option Ty} (hready : Ready (Expr.mk id span (.name name)).nodes s) (hcalm : Calm s) :
    Meets (Expr.mk id span (.name name)).nodes s (do
        let t ← readName id name span
        recordType id t
        return t) (HasType ⟨id,span,.name name⟩ expected) := by
  have hmem := id_mem_of_expr (Expr.mk id span (.name name)).self_mem_nodes
  rw [readName, bind_assoc]
  refine Meets.again hready.sound (bindingNamed_meets hready hmem name span) fun b s1 hstep hb => ?_
  obtain ⟨hready1,-,r,hr,rfl⟩ := hb
  refine Meets.typed (e := ⟨id,span,.name name⟩) hready1 ?_
  refine (readBinding_meets hstep.sound (hcalm.step hstep) hr name span).mono ?_
  rintro t s2 hstep2 ⟨ht,r',hr',htype⟩
  have hat := referentAt_read hready1 hmem hstep2 hr'
  exact ⟨⟨r',hat,htype⟩,Ty.isResult_of_isValue ht,
    by simp [Expr.isContextual, ExprForm.isContextual],fun _ => completable_name hat⟩

lemma namedPlace_meets (hready : Ready (Expr.mk id span (.name name)).nodes s) (hcalm : Calm s) (use : PlacePurpose) :
    Meets (Expr.mk id span (.name name)).nodes s (do
        let p ← namedPlace id name span use
        recordType id p.type
        return p) (IsPlace ⟨id,span,.name name⟩) := by
  have hmem := id_mem_of_expr (Expr.mk id span (.name name)).self_mem_nodes
  unfold namedPlace
  rw [bind_assoc]
  refine Meets.again hready.sound (bindingNamed_meets hready hmem name span) fun b s1 hstep hb => ?_
  obtain ⟨hready1,-,r,hr,rfl⟩ := hb
  refine Meets.placed (e := ⟨id,span,.name name⟩) hready1 ?_
  have hnil := Ready.nil hstep.sound
  refine Meets.read (run_referentOf hr) ?_
  cases r with
  | var type mutable stage =>
    refine (readBinding_meets hstep.sound (hcalm.step hstep) hr name span).thenPure hnil ?_
    rintro t s2 hstep2 ⟨ht,r',hr',htype⟩
    have hat := referentAt_read hready1 hmem hstep2 hr'
    refine ⟨⟨r',hat,htype⟩,ht,?_,fun _ => completable_name hat⟩
    obtain ⟨r'',hr'',hm⟩ := hstep2.moves hr
    rw [Expr.mutability, ExprForm.mutability, hat, Option.bind_some, Option.mem_unique hr' hr'', hm.mutability_eq]
    rfl
  | const | func => cases use <;> exact .fail hnil _ _

lemma refersTo_run_record {α : Type} (m : Check α) (type : α → Ty) (id : NodeId) (s : State) : ((do
      let a ← m
      recordType id (type a)
      return a : Check α).run s).2.refersTo = (m.run s).2.refersTo := by
  rw [Check.run_bind]
  cases (m.run s).1 <;> rfl

lemma refersTo_readName (hready : Ready (Expr.mk id span (.name name)).nodes s) (hcalm : Calm s)
    (hb : s.scopes.lookup s.scopes.current name span = .ok b) : ((readName id name span).run s).2.refersTo[id]? = some b := by
  have hmem := id_mem_of_expr (Expr.mk id span (.name name)).self_mem_nodes
  have hfound : (bindingNamed id name span).run s = (.ok b, s.resolved id b) := by
    change (findFrom s.scopes.current id name span).run s = _
    rw [run_findFrom, hb]
  obtain ⟨r,hr⟩ := Findings.referent?_isSome (f := s.toFindings) (ScopeTree.lookup_lt hb)
  have hready1 := hready.resolved hmem b
  have hread := readBinding_meets hready1.sound (hcalm.step (.resolved hready hmem b)) hr name span
  rw [readName, Check.run_bind, hfound]
  exact (hread.1.refersTo_kept hready1 hmem).trans ((refersTo_resolved ..).trans (if_pos rfl))

end

end Opal
