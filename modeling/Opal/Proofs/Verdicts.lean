import Mathlib.Data.Finset.Card
import Opal.Proofs.Blame
import Opal.Proofs.LexicalScopes

/-!
# The values of the constants of a module

The value of a constant without regard to the order of evaluation: declarations are evaluated with the values that other
constants have so far, beginning with none, until no further constant gets a value.
-/

namespace Opal

open Coupling (InStep RunInStep)

/-- The steps that note something about a node, or number a type. -/
def Event.isNote : Event → Bool
  | .dropped | .begun .. | .typed .. | .referred .. | .built _ | .valued .. => true
  | _ => false

/-- Two states that differ at most in what is noted about nodes, in the numbers of types and in the journal. -/
structure State.Noted (s s' : State) : Prop where
  scopes : s'.scopes = s.scopes
  introduces : s'.introduces = s.introduces
  constants : s'.constants = s.constants
  resultTypes : s'.resultTypes = s.resultTypes
  errors : s'.errors = s.errors

lemma State.noted_step (s : State) {e : Event} (he : e.isNote = true) : s.Noted (s.step e) := by
  cases e with
  | reported | entered | left | called | returned | bound | introduced | changed => cases he
  | _ => exact ⟨rfl,rfl,rfl,rfl,rfl⟩

/-- Two evaluations as seen from the scope around everything, of which the states are compared. -/
def ConstantCoupling.ofStates (rel : State → State → Prop) (stopped : Stop × State → Stop × State → Prop) (lax : Prop)
    (hrefl : ∀ {s s'} (e : Stop), rel s s' → stopped (e, s) (e, s'))
    (hsize : ∀ (size : Expr) {e e' : Stop} {s s' : State}, stopped (e, s) (e', s') →
      stopped (e.inSize size, s) (e'.inSize size, s'))
    (hnoted : ∀ {s t s' t'}, State.Noted s t → State.Noted s' t' → rel s s' → rel t t') :
    ConstantCoupling where
  World := Unit
  le _ _ := True
  le_refl _ := trivial
  le_trans _ _ := trivial
  rel _ := rel
  stopped _ := stopped
  stopped_mono _ h := h
  lax := lax
  uniform := ⟨hrefl⟩
  stands _ c c' _ := c = 0 ∧ c' = 0
  site _ _ := True
  stands_mono _ h := h
  begun id _ _ s s' hrel := ⟨(),trivial,hnoted (s.noted_step rfl) (s'.noted_step rfl) hrel⟩
  typed id _ _ s s' hrel := ⟨(),trivial,hnoted (s.noted_step rfl) (s'.noted_step rfl) hrel⟩
  built _ _ s s' hrel := ⟨(),trivial,hnoted (s.noted_step rfl) (s'.noted_step rfl) hrel,trivial⟩
  inSize := hsize

lemma ScopeTree.nearest?_zero (t : ScopeTree) (name : String) : t.nearest? 0 name = t.find? 0 name := by
  simp [nearest?, chain, chainWithin]

namespace State

variable {s0 : State} {V V' : String → Option Value} {name : String} {v : Value} {n : Nat}

/-! ## Evaluation with given values -/

/-- Constants with given values. One without a value is reported, to tell which one it was. -/
def given (s0 : State) (V : String → Option Value) : Constants := fun k =>
  match s0.scopes.bindings[k]? with
  | some x =>
    match V x.name with
    | some v => return v
    | none => do
      perform (.reported ⟨.circularConstantDefinition x.name,x.span⟩)
      Check.blocked
  | none => Check.blocked

/-- The declaration of the constant `name` is evaluated with given values of the other constants. -/
def trial (s0 : State) (V : String → Option Value) (name : String) : Except Stop Value × State :=
  match (s0.scopes.find? 0 name).bind fun k => s0.constants[k]? with
  | some d => (evaluateDecl (s0.given V) 0 d).run { s0 with errors := #[] }
  | none => (.error .blocked, { s0 with errors := #[] })

lemma run_given {k : BindingId} {x : Binding} (hk : s0.scopes.bindings[k]? = some x) (u : State) : (s0.given V k).run u =
      match V x.name with
      | some v => (.ok v, u)
      | none => (.error .blocked, u.step (.reported ⟨.circularConstantDefinition x.name,x.span⟩)) := by
  unfold given
  rw [hk]
  dsimp only
  cases V x.name <;> rfl

/-- Two evaluations with given values, as long as the first one does not stop. -/
def givenValues (s0 : State) : ConstantCoupling :=
  .ofStates (fun u u' => u.scopes = s0.scopes ∧ u'.scopes = s0.scopes) (fun _ _ => True) True
    (fun _ _ => trivial) (fun _ {_ _ _ _} _ => trivial)
    fun hu hu' h => ⟨hu.scopes.trans h.1,hu'.scopes.trans h.2⟩

lemma names_given (hV : ∀ name v, V name = some v → V' name = some v) : s0.givenValues.Names (s0.given V) (s0.given V') := by
  rintro w c c' id span name ⟨Γ,⟨rfl,rfl⟩,-⟩
  refine InStep.bind (P := fun _ b b' => b = b') ?_ ?_
  · rintro u u' ⟨hu,hu'⟩
    rw [run_findFrom, run_findFrom, hu, hu']
    cases s0.scopes.lookup 0 name span with
    | error e => exact .alone trivial
    | ok b => exact .result (show s0.givenValues.le w () from trivial) ⟨hu,hu'⟩ rfl
  rintro w1 b _ - rfl
  rintro u u' ⟨hu,hu'⟩
  rw [Check.run_bind, Check.run_bind]
  cases hb : s0.scopes.bindings[b]? with
  | none =>
    have hrun : (referentOf b).run u = (.error .blocked, u) := by
      change (match u.scopes.bindings[b]? with
        | some x => (pure x.referent : Check Referent)
        | none => Check.blocked).run u = _
      rw [hu, hb]
      rfl
    rw [hrun]
    exact .alone trivial
  | some x =>
    have hr {u : State} (hu : u.scopes = s0.scopes) : u.referent? b = some x.referent := by
      rw [Findings.referent?, hu, hb]
      rfl
    rw [run_referentOf (hr hu), run_referentOf (hr hu')]
    dsimp only
    have hends : s0.givenValues.Ends w1 (fun _ v v' => v = v') ((s0.given V b).run u) ((s0.given V' b).run u') := by
      rw [run_given hb, run_given hb]
      cases hv : V x.name with
      | none => exact .alone trivial
      | some v =>
        rw [hV _ _ hv]
        exact .result (show s0.givenValues.le w1 () from trivial) ⟨hu,hu'⟩ rfl
    cases x.referent with
    | var | func => exact .alone trivial
    | const type stage =>
      cases stage with
      | inProgress => exact .alone trivial
      | pending | done | failed => exact hends

/-- More given values lead to no other value. -/
theorem trial_mono (hV : ∀ name v, V name = some v → V' name = some v)
    (h : (s0.trial V name).1 = .ok v) : (s0.trial V' name).1 = .ok v := by
  unfold trial at h ⊢
  generalize (s0.scopes.find? 0 name).bind (fun k => s0.constants[k]?) = d at h ⊢
  cases d with
  | none => cases h
  | some d =>
    have hends := evaluateDecl_inStep (K := s0.givenValues) (names_given hV) d (w := ())
      ⟨[],⟨rfl,rfl⟩,fun _ _ => trivial⟩ { s0 with errors := #[] } { s0 with errors := #[] }
      ⟨rfl,rfl⟩
    dsimp only at h ⊢
    generalize (evaluateDecl (s0.given V) 0 d).run { s0 with errors := #[] } = r at h hends
    generalize (evaluateDecl (s0.given V') 0 d).run { s0 with errors := #[] } = r' at hends ⊢
    cases hends with
    | result _ _ heq => rw [← heq]; exact h
    | stopped | alone => cases h

/-! ## Rounds -/

/-- The values that constants have after some rounds. -/
def valueWithin (s0 : State) : Nat → String → Option Value
  | 0, _ => none
  | n + 1, name => (s0.trial (s0.valueWithin n) name).1.toOption

lemma valueWithin_succ_eq_some : s0.valueWithin (n + 1) name = some v ↔ (s0.trial (s0.valueWithin n) name).1 = .ok v := by
  rw [valueWithin]
  cases (s0.trial (s0.valueWithin n) name).1 <;> simp [Except.toOption]

lemma valueWithin_succ : ∀ {n : Nat} {name : String} {v : Value},
    s0.valueWithin n name = some v → s0.valueWithin (n + 1) name = some v
  | 0, _, _, h => by cases h
  | n + 1, name, v, h => by
    rw [valueWithin_succ_eq_some] at h ⊢
    exact trial_mono (fun _ _ => valueWithin_succ) h

lemma valueWithin_mono {m : Nat} (hnm : n ≤ m) (h : s0.valueWithin n name = some v) : s0.valueWithin m name = some v := by
  induction hnm with
  | refl => exact h
  | step _ ih => exact valueWithin_succ ih

def boundNames (s0 : State) : Finset String :=
  (s0.scopes.bindings.toList.map (·.name)).toFinset

lemma mem_boundNames (h : s0.valueWithin n name = some v) : name ∈ s0.boundNames := by
  cases n with
  | zero => cases h
  | succ n =>
    rw [valueWithin_succ_eq_some] at h
    unfold trial at h
    cases hk : s0.scopes.find? 0 name with
    | none => rw [hk] at h; cases h
    | some k =>
      obtain ⟨⟨x,hx,-,rfl⟩,-⟩ := ScopeTree.find?_eq_some_iff.1 hk
      exact List.mem_toFinset.2 (List.mem_map_of_mem (Array.mem_toList_iff.2 (Array.mem_of_getElem? hx)))

def valuedWithin (s0 : State) (n : Nat) : Finset String :=
  s0.boundNames.filter fun name => (s0.valueWithin n name).isSome

lemma mem_valuedWithin : name ∈ s0.valuedWithin n ↔ (s0.valueWithin n name).isSome = true := by
  rw [valuedWithin, Finset.mem_filter, and_iff_right_iff_imp]
  intro h
  obtain ⟨v,hv⟩ := Option.isSome_iff_exists.1 h
  exact mem_boundNames hv

lemma valuedWithin_subset (n : Nat) : s0.valuedWithin n ⊆ s0.valuedWithin (n + 1) := by
  intro name h
  rw [mem_valuedWithin] at h ⊢
  obtain ⟨v,hv⟩ := Option.isSome_iff_exists.1 h
  rw [valueWithin_succ hv]
  rfl

/-- After some round, a further one gives no more values: there are only so many names. -/
theorem exists_valueWithin_eq (s0 : State) : ∃ n, s0.valueWithin (n + 1) = s0.valueWithin n := by
  by_contra hnone
  have hgrow (n) : n ≤ (s0.valuedWithin n).card := by
    induction n with
    | zero => exact Nat.zero_le _
    | succ n ih =>
      refine Nat.lt_of_le_of_lt ih (Finset.card_lt_card ⟨valuedWithin_subset n,fun hsub => ?_⟩)
      refine hnone ⟨n,funext fun name => ?_⟩
      cases hv : s0.valueWithin (n + 1) name with
      | none =>
        cases hv' : s0.valueWithin n name with
        | none => rfl
        | some v => cases hv.symm.trans (valueWithin_succ hv')
      | some v =>
        have hmem : name ∈ s0.valuedWithin n := hsub (by rw [mem_valuedWithin, hv]; rfl)
        obtain ⟨v',hv'⟩ := Option.isSome_iff_exists.1 (mem_valuedWithin.1 hmem)
        rw [hv', ← valueWithin_succ hv', hv]
  have hle := Finset.card_le_card (Finset.filter_subset
    (fun name => (s0.valueWithin (s0.boundNames.card + 1) name).isSome) s0.boundNames)
  exact absurd (Nat.le_trans (hgrow (s0.boundNames.card + 1)) hle) (Nat.not_succ_le_self _)

/-! ## The values -/

/-- The values of the constants, as seen from the scope around everything. -/
noncomputable def verdict (s0 : State) : String → Option Value :=
  s0.valueWithin (exists_valueWithin_eq s0).choose

lemma verdict_eq (s0 : State) (name : String) : s0.verdict name = (s0.trial s0.verdict name).1.toOption :=
  (congrFun (exists_valueWithin_eq s0).choose_spec name).symm

/-- A constant has its value after some round. -/
theorem verdict_eq_some_iff : s0.verdict name = some v ↔ ∃ n, s0.valueWithin n name = some v := by
  refine ⟨fun h => ⟨_,h⟩,fun ⟨n,h⟩ => ?_⟩
  have hfixed (m) : s0.valueWithin ((exists_valueWithin_eq s0).choose + m) = s0.verdict := by
    induction m with
    | zero => rfl
    | succ m ih =>
      funext name
      rw [← Nat.add_assoc, valueWithin, ih, ← verdict_eq]
  rw [← hfixed n]
  exact valueWithin_mono (Nat.le_add_left n _) h

lemma trial_verdict_eq_ok : (s0.trial s0.verdict name).1 = .ok v ↔ s0.verdict name = some v := by
  rw [verdict_eq]
  cases (s0.trial s0.verdict name).1 <;> simp [Except.toOption]

/-- Why a constant has no value: its evaluation reports that it named another one without a value, or it ends with an
error of its own. -/
noncomputable def causes (s0 : State) : Causes where
  waits name :=
    match (s0.trial s0.verdict name).2.errors.toList with
    | [⟨.circularConstantDefinition other,_⟩] => some other
    | _ => none
  own name :=
    match (s0.trial s0.verdict name).1 with
    | .error (.error e) => [e.cause.code]
    | _ => []

end State

end Opal
