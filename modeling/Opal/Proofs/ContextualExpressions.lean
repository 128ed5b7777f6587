import Opal.Proofs.LikeRuns

/-!
# Expressions that take their types from the context

An expression over literals, minus signs and arithmetic has the type that is expected of it, or it fails. It changes nothing but
what is recorded of its own nodes, so it does not matter when it is examined.
-/

namespace Opal

/-- The computation always ends with `r`, and changes nothing but the types that are recorded and numbered. -/
def Inert {α : Type} (m : Check α) (r : Except Stop α) : Prop :=
  ∀ s, ∃ s', m.run s = (r, s') ∧ s.Retyped s'

namespace Inert

variable {α β : Type} {m : Check α} {a : α} {f : α → Check β}

lemma pure (a : α) : Inert (Pure.pure a) (.ok a) :=
  fun s => ⟨s,rfl,.refl s⟩

lemma begun (id : NodeId) (expected : Option Ty) : Inert (liftM (perform (.begun id expected))) (.ok ()) :=
  fun s => ⟨s.step (.begun id expected),rfl,_,_,_,rfl⟩

lemma recordType (id : NodeId) (t : Ty) : Inert (liftM (Opal.recordType id t)) (.ok ()) :=
  fun s => ⟨s.step (.typed id t),rfl,_,_,_,rfl⟩

lemma built (t : Ty) : Inert (liftM (Opal.built t)) (.ok t) :=
  fun s => ⟨s.step (.built t),rfl,_,_,_,rfl⟩

lemma bind {r : Except Stop β} (hm : Inert m (.ok a)) (hf : Inert (f a) r) : Inert (m >>= f) r := by
  intro s
  obtain ⟨s1,hrun,hs1⟩ := hm s
  obtain ⟨s2,hrun',hs2⟩ := hf s1
  refine ⟨s2,?_,hs1.trans hs2⟩
  rw [Check.run_bind, hrun]
  exact hrun'

lemma bind_error {stop : Stop} (hm : Inert m (.error stop)) : Inert (m >>= f) (.error stop) := by
  intro s
  obtain ⟨s1,hrun,hs1⟩ := hm s
  refine ⟨s1,?_,hs1⟩
  rw [Check.run_bind, hrun]

end Inert

/-- The computation always ends in the same way, and if it has a result, then one of the type that is expected. -/
def TakesType {α : Type} (type : α → Ty) (expected : Option Ty) (m : Check α) : Prop :=
  ∃ r, Inert m r ∧ ∀ a, r = .ok a → expected = some (type a)

namespace TakesType

variable {α β : Type} {type : α → Ty} {type' : β → Ty} {expected : Option Ty} {m : Check α} {f : α → Check β}

lemma pure {a : α} (h : expected = some (type a)) : TakesType type expected (Pure.pure a) := by
  refine ⟨_,.pure a,?_⟩
  rintro _ ⟨⟩
  exact h

lemma throw (stop : Stop) : TakesType type expected (MonadExcept.throw stop) :=
  ⟨.error stop,fun s => ⟨s,rfl,.refl s⟩,nofun⟩

lemma bind {x : Option Ty} (hm : TakesType type x m) (hf : ∀ a, x = some (type a) → TakesType type' expected (f a)) :
    TakesType type' expected (m >>= f) := by
  obtain ⟨r,hr,ht⟩ := hm
  cases r with
  | ok a =>
    obtain ⟨r',hr',ht'⟩ := hf a (ht a rfl)
    exact ⟨r',hr.bind hr',ht'⟩
  | error stop => exact ⟨_,hr.bind_error,nofun⟩

lemma ite {c : Prop} [Decidable c] {n : Check α} (h : TakesType type expected m) (h' : TakesType type expected n) :
    TakesType type expected (if c then m else n) := by
  split
  · exact h
  · exact h'

lemma andThen {a : α} (hm : Inert m (.ok a)) (hf : TakesType type' expected (f a)) : TakesType type' expected (m >>= f) := by
  obtain ⟨r,hr,ht⟩ := hf
  exact ⟨r,hm.bind hr,ht⟩

end TakesType

section Rules

variable {expected : Option Ty}

lemma literalOfType_takesType (text : String) (negative : Bool) (expected : Option Ty) (span : Span) :
    TakesType Value.type expected (literalOfType text negative expected span) := by
  unfold literalOfType
  dsimp only
  split
  · exact .throw _
  · exact .throw _
  · next i =>
    cases literalValue? text with
    | none => exact .throw _
    | some magnitude => exact .ite (.pure rfl) (.throw _)
  · exact .throw _

lemma negationValue_takesType {o : Operand} (span : Span) (h : TakesType id expected (o.value expected)) :
    TakesType id expected (negationValue o span expected) := by
  unfold negationValue
  split
  · exact (literalOfType_takesType _ true expected span).bind fun v hv => .andThen (.recordType o.expr.id v.type) (.pure hv)
  · refine h.bind fun t ht => ?_
    cases t with
    | int i => exact .ite (.pure ht) (.throw _)
    | error => exact .pure ht
    | _ => exact .throw _

lemma binaryValue_takesType {l r : Operand} {op : BinaryOp} (hop : op.isArithmetic = true)
    (hl : ∀ expected, TakesType id expected (l.value expected)) (hr : ∀ expected, TakesType id expected (r.value expected)) :
    TakesType id expected (binaryValue op l r expected) := by
  have hfirst : op.firstExpected expected = expected := if_pos hop
  have htypes : TakesType Prod.fst expected (operandTypes op l r expected) := by
    unfold operandTypes
    rw [hfirst]
    split
    · exact (hr expected).bind fun tr htr => (hl (some tr)).bind fun tl htl => .pure (htr.trans htl)
    · exact (hl expected).bind fun tl htl => (hr (some tl)).bind fun tr htr => .pure htl
  refine htypes.bind fun ⟨tl,tr⟩ ht => ?_
  dsimp only
  rw [hop, if_pos rfl]
  exact .ite (.throw _) (.ite (.throw _) (.pure ht))

end Rules

lemma takesType_of_isContextual (e : Expr) (h : e.isContextual = true) (expected : Option Ty) :
    TakesType id expected (e.operand.value expected) := by
  obtain ⟨n,span,form⟩ := e
  suffices hform : TakesType id expected (form.value n span expected) from
    .andThen (.begun n expected) (hform.bind fun t ht => .andThen (.recordType n t) (.pure ht))
  cases form with
  | int text => exact (literalOfType_takesType text false expected span).bind fun v hv => .pure hv
  | paren e => exact takesType_of_isContextual e h expected
  | unary op e =>
    cases op with
    | neg => exact negationValue_takesType span (takesType_of_isContextual e h expected)
    | not => cases h
  | binary op l r =>
    simp only [Expr.isContextual, ExprForm.isContextual, Bool.and_eq_true] at h
    exact binaryValue_takesType h.1.1 (takesType_of_isContextual l h.1.2) (takesType_of_isContextual r h.2)
  | _ => cases h

/-! ## Runs that may differ in the types that are recorded -/

lemma Likeness.States.refl {L : SelfLikeness} {s : State} (htypeOf : L.typeOf s.typeOf s.typeOf) : L.States s s where
  parents := rfl
  current := rfl
  bindings i := by
    cases s.scopes.bindings[i]? with
    | some x => exact .some ⟨rfl,rfl,rfl,L.name_refl _⟩
    | none => exact .none
  types _ := rfl
  typeOf := htypeOf
  references _ := rfl
  valueOf := rfl
  introduces := rfl
  errors := List.forall₂_same.2 fun _ _ => ⟨rfl,L.span_refl _⟩
  constants b := by
    cases s.constants[b]? with
    | some d =>
      cases Decl.like_self (L := L) (.const d) with
      | const h => exact .some h
    | none => exact .none
  resultTypes := rfl

/-- Two runs on one tree that may differ in the types that are recorded and numbered. -/
def SelfLikeness.loose : SelfLikeness where
  bare := False
  span := Eq
  name := Eq
  span_refl _ := rfl
  span_of_name h := h
  types := False
  typeOf _ _ := True
  typeOf_congr _ _ := trivial
  kept := id
  name_refl _ := rfl
  both _ _ _ _ _ := trivial

/-- The states differ at most in the types that are recorded and numbered. The declarations of constants are alike. -/
abbrev State.Resembles (s s' : State) : Prop :=
  SelfLikeness.loose.States s s'

namespace State.Resembles

variable {s s' t t' : State}

lemma retyped_left (h : s.Resembles s') (hs : s.Retyped t) : t.Resembles s' := by
  obtain ⟨_,_,_,rfl⟩ := hs
  exact { h with types := nofun, typeOf := trivial }

lemma retyped_right (h : s.Resembles s') (hs : s'.Retyped t') : s.Resembles t' := by
  obtain ⟨_,_,_,rfl⟩ := hs
  exact { h with types := nofun, typeOf := trivial }

lemma refl (s : State) : s.Resembles s :=
  Likeness.States.refl trivial

lemma errors_eq (h : s.Resembles s') : s'.errors = s.errors := by
  have herrors : List.Forall₂ Eq s.errors.toList s'.errors.toList :=
    h.errors.imp fun e e' ⟨hcause,hspan⟩ => by
      calc e = ⟨e.cause,e.span⟩ := rfl
        _ = ⟨e'.cause,e'.span⟩ := by rw [hcause, show e.span = e'.span from hspan]
  rw [List.forall₂_eq_eq_eq] at herrors
  exact (Array.toList_inj.1 herrors).symm

end State.Resembles

end Opal
