import Opal.Proofs.CoupledConstants

/-!
# Intact states

The types, bindings and scopes that a state speaks of are there, and what failed has no part in any type.
-/

namespace Opal

open Option

/-- The type has a number. -/
def State.Numbers (s : State) (t : Ty) : Prop :=
  ∃ id, s.types.get? id = some t

/-- The type has a number, and nothing failed. -/
def State.KnowsResult (s : State) (t : Ty) : Prop :=
  s.Numbers t ∧ t ≠ .error

/-- The type has a number, and is that of a value. -/
def State.KnowsValue (s : State) (t : Ty) : Prop :=
  s.KnowsResult t ∧ t ≠ .void

/-- The parts of the type have numbers. Elements, targets and parameters are values. -/
def State.KnowsParts (s : State) (t : Ty) : Prop :=
  t.HasParts s.KnowsResult s.KnowsValue

/-- The types of what a name is bound to have numbers. A variable that is initialized has the type of a
value, and so have parameters. -/
def State.Suits (s : State) : Referent → Prop
  | .var type _ stage =>
    (∀ t ∈ type, s.Numbers t) ∧ (stage = .initialized → ∃ t, type = some t ∧ s.KnowsValue t)
  | .const type _ => ∀ t ∈ type, s.Numbers t
  | .func t params => s.Numbers t ∧ ∀ p ∈ params, s.KnowsValue p.type

/-- The scopes of a tree are there, and lie inside scopes that were opened before them. -/
structure ScopeTree.Intact (t : ScopeTree) : Prop where
  current : t.current < t.parents.size
  parents : ∀ i p : ScopeId, t.parent? i = some p → p < i
  bindings : ∀ b ∈ t.bindings, b.scope < t.parents.size

/-- Everything that a state speaks of is there. -/
structure State.Intact (s : State) : Prop where
  basic : ∀ t ∈ TypeRegistry.basic, s.Numbers t
  parts : ∀ t, s.Numbers t → s.KnowsParts t
  typeOf : ∀ (id : NodeId) t, s.typeOf[id]? = some t → s.KnowsResult t
  expected : ∀ (id : NodeId) t, .begun id (some t) ∈ s.journal → s.KnowsResult t
  resultTypes : ∀ t ∈ s.resultTypes, s.KnowsResult t
  referents : ∀ (b : BindingId) r, s.referent? b = some r → s.Suits r
  refersTo : ∀ (id : NodeId) b, s.refersTo[id]? = some b → b < s.scopes.bindings.size
  introduces : ∀ (id : NodeId) b, s.introduces[id]? = some b → b < s.scopes.bindings.size
  constants : ∀ (b : BindingId) d, s.constants[b]? = some d → b < s.scopes.bindings.size
  scopes : s.scopes.Intact

/-- The steps that keep a state intact. -/
def State.Admits (s : State) : Event → Prop
  | .begun _ expected => ∀ t ∈ expected, s.KnowsResult t
  | .typed _ t => s.KnowsResult t
  | .referred _ b => b < s.scopes.bindings.size
  | .built t => s.KnowsParts t
  | .called ret => s.KnowsResult ret
  | .bound b x => b = s.scopes.bindings.size ∧ x.scope < s.scopes.parents.size ∧ s.Suits x.referent
  | .introduced _ b => b < s.scopes.bindings.size
  | .changed b r => b < s.scopes.bindings.size ∧ s.Suits r
  | .reported _ | .dropped | .entered | .left | .returned | .valued .. => True

/-! ## Known types stay known -/

section Numbers

variable {s s' : State} {t : Ty} {r : Referent}

lemma State.numbers_iff : s.Numbers t ↔ t ∈ s.types.types :=
  Array.mem_iff_getElem?.symm

/-- Every type that has a number in `s` has one in `s'`. -/
def State.Extends (s s' : State) : Prop :=
  ∀ t, s.Numbers t → s'.Numbers t

lemma State.KnowsResult.mono (h : s.KnowsResult t) (hs : s.Extends s') : s'.KnowsResult t :=
  ⟨hs t h.1,h.2⟩

lemma State.KnowsValue.mono (h : s.KnowsValue t) (hs : s.Extends s') : s'.KnowsValue t :=
  ⟨h.1.mono hs,h.2⟩

lemma State.KnowsParts.mono (h : s.KnowsParts t) (hs : s.Extends s') : s'.KnowsParts t :=
  Ty.HasParts.mono h (fun _ ht => ht.mono hs) fun _ ht => ht.mono hs

lemma State.Suits.mono (h : s.Suits r) (hs : s.Extends s') : s'.Suits r := by
  cases r with
  | var =>
    refine ⟨fun t ht => hs t (h.1 t ht),fun hstage => ?_⟩
    obtain ⟨t,rfl,ht⟩ := h.2 hstage
    exact ⟨t,rfl,ht.mono hs⟩
  | const => exact fun t ht => hs t (h t ht)
  | func => exact ⟨hs _ h.1,fun p hp => (h.2 p hp).mono hs⟩

lemma TypeRegistry.mem_intern_iff (g : TypeRegistry) (t u : Ty) : u ∈ (g.intern t).types ↔ u ∈ g.types ∨ u = t := by
  by_cases h : t ∈ g.types
  · rw [intern_of_mem h]
    exact ⟨.inl,fun hu => hu.elim id fun hu => hu ▸ h⟩
  · rw [intern_of_not_mem h, Array.mem_push]

lemma State.extends_step (s : State) (e : Event) : s.Extends (s.step e) := by
  intro t ht
  cases e with
  | built u => exact numbers_iff.2 ((TypeRegistry.mem_intern_iff ..).2 (.inl (numbers_iff.1 ht)))
  | _ => exact ht

lemma State.extends_of_steps {P : State → Event → Prop} (h : Steps P s s') : s.Extends s' := by
  induction h with
  | refl => exact fun _ ht => ht
  | step e _ _ ih => exact fun t ht => State.extends_step _ e t (ih t ht)

end Numbers

/-! ## Intact scopes -/

namespace ScopeTree.Intact

variable {t : ScopeTree}

lemma parent?_lt (h : t.Intact) {i p : ScopeId} (hp : t.parent? i = some p) : p < t.parents.size := by
  have hi : i < t.parents.size := by
    by_contra hge
    rw [parent?, Array.getElem?_eq_none (Nat.le_of_not_lt hge)] at hp
    cases hp
  exact Nat.lt_trans (h.parents i p hp) hi

lemma enter (h : t.Intact) : t.enter.Intact where
  current := by simp [ScopeTree.enter, nextScope]
  parents i p hp := by
    rw [parent?, ScopeTree.enter, Array.getElem?_push] at hp
    split at hp
    · next hi =>
      obtain rfl : t.current = p := Option.some.inj hp
      exact hi ▸ h.current
    · exact h.parents i p hp
  bindings b hb := by
    have hlt := h.bindings b hb
    rw [ScopeTree.enter, Array.size_push]
    exact Nat.lt_succ_of_lt hlt

lemma leave (h : t.Intact) : t.leave.Intact where
  current := by
    change (t.parent? t.current).getD t.current < t.parents.size
    cases hp : t.parent? t.current with
    | none => exact h.current
    | some p => exact h.parent?_lt hp
  parents := h.parents
  bindings := h.bindings

lemma bind (h : t.Intact) {b : Binding} (hb : b.scope < t.parents.size) : (t.bind b).Intact where
  current := h.current
  parents := h.parents
  bindings b' hb' := by
    rcases Array.mem_push.1 hb' with hold | rfl
    · exact h.bindings b' hold
    · exact hb

lemma modifyReferent (h : t.Intact) (id : BindingId) (f : Referent → Referent) : (t.modifyReferent id f).Intact where
  current := h.current
  parents := h.parents
  bindings b hb := by
    obtain ⟨i,hi⟩ := Array.mem_iff_getElem?.1 hb
    rw [ScopeTree.modifyReferent, Array.getElem?_modify] at hi
    split at hi
    · obtain ⟨b',hb',rfl⟩ := map_eq_some_iff.1 hi
      exact h.bindings b' (Array.mem_of_getElem? hb')
    · exact h.bindings b (Array.mem_of_getElem? hi)

end ScopeTree.Intact

/-! ## Intact states -/

namespace State.Intact

variable {s : State}

section

variable (h : s.Intact) {e : Event} {id : BindingId}
include h

lemma expected_step (he : s.Admits e) (id : NodeId) (t : Ty)
    (hmem : .begun id (some t) ∈ (s.step e).journal) : (s.step e).KnowsResult t := by
  rcases List.mem_cons.1 hmem with rfl | hold
  · exact he t rfl
  · exact (h.expected id t hold).mono (s.extends_step e)

lemma built {t : Ty} (ht : s.KnowsParts t) : (s.step (.built t)).Intact where
  basic u hu := s.extends_step _ u (h.basic u hu)
  parts u hu := by
    rcases (TypeRegistry.mem_intern_iff ..).1 (numbers_iff.1 hu) with hold | rfl
    · exact (h.parts u (numbers_iff.2 hold)).mono (s.extends_step _)
    · exact ht.mono (s.extends_step _)
  typeOf id u hu := (h.typeOf id u hu).mono (s.extends_step _)
  expected := h.expected_step (e := .built t) ht
  resultTypes u hu := (h.resultTypes u hu).mono (s.extends_step _)
  referents b r hr := (h.referents b r hr).mono (s.extends_step _)
  refersTo := h.refersTo
  introduces := h.introduces
  constants := h.constants
  scopes := h.scopes

lemma bound {b : Binding}
    (hb : id = s.scopes.bindings.size ∧ b.scope < s.scopes.parents.size ∧ s.Suits b.referent) : (s.step (.bound id b)).Intact :=
  have hsize : (s.step (.bound id b)).scopes.bindings.size = s.scopes.bindings.size + 1 :=
    Array.size_push _
  { h with
    expected := h.expected_step (e := .bound id b) hb
    referents := fun i r hr => by
      obtain ⟨b',hb',rfl⟩ := map_eq_some_iff.1 hr
      rcases Array.mem_push.1 (Array.mem_of_getElem? hb') with hold | rfl
      · obtain ⟨j,hj⟩ := Array.mem_iff_getElem?.1 hold
        exact h.referents j _ (map_eq_some_iff.2 ⟨b',hj,rfl⟩)
      · exact hb.2.2
    refersTo := fun i b' hi => hsize ▸ Nat.lt_succ_of_lt (h.refersTo i b' hi)
    introduces := fun i b' hi => hsize ▸ Nat.lt_succ_of_lt (h.introduces i b' hi)
    constants := fun b' d hd => hsize ▸ Nat.lt_succ_of_lt (h.constants b' d hd)
    scopes := h.scopes.bind hb.2.1 }

lemma changed {r : Referent} (hr : id < s.scopes.bindings.size ∧ s.Suits r) : (s.step (.changed id r)).Intact :=
  have hsize : (s.step (.changed id r)).scopes.bindings.size = s.scopes.bindings.size :=
    Array.size_modify
  { h with
    expected := h.expected_step (e := .changed id r) hr
    referents := fun i r' hr' => by
      obtain ⟨b',hb',rfl⟩ := map_eq_some_iff.1 hr'
      simp only [step, apply, ScopeTree.modifyReferent, Array.getElem?_modify] at hb'
      split at hb'
      · obtain ⟨b,-,rfl⟩ := map_eq_some_iff.1 hb'
        exact hr.2
      · exact h.referents i _ (map_eq_some_iff.2 ⟨b',hb',rfl⟩)
    refersTo := fun i b' hi => hsize ▸ h.refersTo i b' hi
    introduces := fun i b' hi => hsize ▸ h.introduces i b' hi
    constants := fun b' d hd => hsize ▸ h.constants b' d hd
    scopes := h.scopes.modifyReferent id fun _ => r }

lemma introduced (d : Decl) {b : BindingId} (hb : b < s.scopes.bindings.size) : (s.step (.introduced d b)).Intact :=
  { h with
    expected := h.expected_step (e := .introduced d b) hb
    introduces := fun i b' hi => by
      simp only [step, apply, Std.TreeMap.getElem?_insert] at hi
      split at hi
      · cases hi; exact hb
      · exact h.introduces i b' hi
    constants := fun b' d' hd' => by
      cases d with
      | const c =>
        simp only [step, apply, Decl.addConstant, Std.TreeMap.getElem?_insert] at hd'
        split at hd'
        · next heq =>
          obtain rfl : b = b' := Std.LawfulEqCmp.eq_of_compare heq
          exact hb
        · exact h.constants b' d' hd'
      | var | func => exact h.constants b' d' hd' }

lemma step (he : s.Admits e) : (s.step e).Intact := by
  have hexpected := h.expected_step he
  cases e with
  | built t => exact h.built he
  | bound id b => exact h.bound he
  | changed id r => exact h.changed he
  | introduced d b => exact h.introduced d he
  | typed id t =>
    refine { h with expected := hexpected, typeOf := fun i u hu => ?_ }
    simp only [State.step, apply, Std.TreeMap.getElem?_insert] at hu
    split at hu
    · cases hu; exact he
    · exact h.typeOf i u hu
  | referred id b =>
    refine { h with expected := hexpected, refersTo := fun i b' hi => ?_ }
    simp only [State.step, apply, Std.TreeMap.getElem?_insert] at hi
    split at hi
    · cases hi; exact he
    · exact h.refersTo i b' hi
  | called ret =>
    refine { h with expected := hexpected, resultTypes := fun t ht => ?_ }
    rcases List.mem_cons.1 ht with rfl | hold
    · exact he
    · exact h.resultTypes t hold
  | returned =>
    exact { h with
      expected := hexpected
      resultTypes := fun t ht => h.resultTypes t (List.mem_of_mem_tail ht) }
  | entered => exact { h with expected := hexpected, scopes := h.scopes.enter }
  | left => exact { h with expected := hexpected, scopes := h.scopes.leave }
  | _ => exact { h with expected := hexpected }

end

end State.Intact

lemma State.intact_initial : State.initial.Intact where
  basic t ht := numbers_iff.2 ht
  parts t ht := by
    have hmem : t ∈ TypeRegistry.basic := numbers_iff.1 ht
    cases t with
    | array | reference | function => simp [TypeRegistry.basic] at hmem
    | _ => trivial
  typeOf := by simp [initial]
  expected := by simp [initial]
  resultTypes := by simp [initial]
  referents := by simp [Findings.referent?, initial, ScopeTree.initial]
  refersTo := by simp [initial]
  introduces := by simp [initial]
  constants := by simp [initial]
  scopes := {
    current := by decide
    parents := fun i p hp => by
      cases i with
      | zero | succ i => cases hp
    bindings := by simp [initial, ScopeTree.initial] }

end Opal
