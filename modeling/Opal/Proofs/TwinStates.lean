import Mathlib.Data.List.Chain
import Opal.Proofs.OrderlyRuns
import Opal.Proofs.SteadyStates

/-!
# Two runs that examine one declaration

Two runs that come to the same declaration may have evaluated different constants, and may number scopes and bindings
differently. Each scope and each binding of one corresponds to one of the other.
-/

namespace Opal

open Option

/-! ## One run -/

structure Start where
  state : State
  /-- The codes of the errors that have nothing to do with constants. -/
  base : List String
  /-- The variable or function that is declared, if the examination may change it. -/
  own : Option BindingId

/-- Names were bound inside of the module since then, for declarations among the nodes of `L`. Of what was bound
before, only what is declared has changed, and constants of the module that were not evaluated. -/
structure Start.Since (a : Start) (L : List (Node × Env)) (s : State) : Prop where
  intact : s.scopes.Intact
  find? : ∀ name, s.scopes.find? 0 name = a.state.scopes.find? 0 name
  introduces : ∀ id : NodeId, (∀ d Γ, (Node.decl d, Γ) ∈ L → d.id ≠ id) → s.introduces[id]? = a.state.introduces[id]?
  kept : ∀ b r, a.state.referent? b = some r → r ≠ .declaredConst → a.own ≠ some b → s.referent? b = some r
  grown : ∀ b, s.referent? b = none → a.state.referent? b = none

namespace Start.Since

variable {a : Start} {L : List (Node × Env)} {s0 s t : State} {b : BindingId} {x : Binding}
  {l codes : List String} {f : Referent → Referent}

lemma refl (h : a.state.scopes.Intact) : a.Since L a.state :=
  ⟨h,fun _ => rfl,fun _ _ => rfl,fun _ _ hr _ _ => hr,fun _ hb => hb⟩

lemma of_bindings (h : a.Since L s) (hintact : t.scopes.Intact)
    (hbindings : t.scopes.bindings = s.scopes.bindings) (hintro : t.introduces = s.introduces) : a.Since L t := by
  have hr (b) : t.referent? b = s.referent? b := by
    rw [Findings.referent?, hbindings]
    rfl
  refine ⟨hintact,fun name => ?_,fun id hid => hintro ▸ h.introduces id hid,
    fun b r hb hne hown => (hr b).trans (h.kept b r hb hne hown),
    fun b hb => h.grown b ((hr b).symm.trans hb)⟩
  rw [← h.find? name]
  unfold ScopeTree.find?
  rw [hbindings]

lemma settles (h : a.Since L s) (hsettles : s0.Settles s l codes t) : a.Since L t where
  intact := by
    refine ⟨?_,fun i p hp => h.intact.parents i p ?_,fun y hy => ?_⟩
    · rw [hsettles.current, hsettles.parents]
      exact h.intact.current
    · rwa [ScopeTree.parent?, hsettles.parents] at hp
    · obtain ⟨b,hb⟩ := Array.mem_iff_getElem?.1 hy
      obtain ⟨x,hx,hsettled⟩ := hsettles.exists_binding' hb
      rw [hsettled.name_eq.2, hsettles.parents]
      exact h.intact.bindings x (Array.mem_of_getElem? hx)
  find? name := (hsettles.find? 0 name).trans (h.find? name)
  introduces id hid := by
    rw [hsettles.introduces]
    exact h.introduces id hid
  kept b r hb hne hown := by
    obtain ⟨x,hx,rfl⟩ := map_eq_some_iff.1 (h.kept b r hb hne hown)
    obtain ⟨x',hx',hsettled⟩ := hsettles.exists_binding hx
    rw [State.referent?_eq_some hx', hsettled.eq_of_ne hne]
  grown b hb := by
    refine h.grown b ?_
    cases hx : s.scopes.bindings[b]? with
    | none => rw [Findings.referent?, hx]; rfl
    | some x =>
      obtain ⟨x',hx',-⟩ := hsettles.exists_binding hx
      cases (State.referent?_eq_some hx').symm.trans hb

lemma marked (h : a.Since L s) (hb : a.state.referent? b = none ∨ a.own = some b) : a.Since L (s.marked b f) where
  intact := h.intact.modifyReferent b f
  find? name := (find?_marked s b f 0 name).trans (h.find? name)
  introduces := h.introduces
  kept e r he hne hown := by
    have hbe : b ≠ e := by
      rintro rfl
      rcases hb with hb | hb
      · cases hb.symm.trans he
      · exact hown hb
    exact (referent?_marked_of_ne hbe).trans (h.kept e r he hne hown)
  grown e he := by
    refine h.grown e ?_
    rw [referent?_marked] at he
    split at he
    · exact map_eq_none_iff.1 he
    · exact he

lemma bind (h : a.Since L s) (ht : t.scopes = s.scopes.bind x) (hscope : x.scope ≠ 0) (hlt : x.scope < s.scopes.parents.size)
    (hintro : ∀ id : NodeId, (∀ d Γ, (Node.decl d, Γ) ∈ L → d.id ≠ id) →
      t.introduces[id]? = s.introduces[id]?) : a.Since L t := by
  have hr (b) : t.referent? b = (s.bound x).referent? b := by
    rw [Findings.referent?, ht]
    rfl
  refine ⟨ht ▸ h.intact.bind hlt,fun name => ?_,fun id hid => (hintro id hid).trans (h.introduces id hid),
    fun b r hb hne hown => ?_,fun b hb => h.grown b ?_⟩
  · rw [← h.find? name, ht, ScopeTree.find?_bind, if_neg fun hmatch => hscope hmatch.1, or_none]
  · rw [hr]
    exact referent?_bound_of_some (h.kept b r hb hne hown)
  · rw [hr, referent?_bound] at hb
    split at hb
    · cases hb
    · exact hb

end Start.Since

/-! ## Scopes and bindings that correspond -/

/-- What two runs that examine one declaration have in common. -/
structure Ties where
  /-- The scopes that correspond. -/
  scopes : ScopeId → ScopeId → Prop
  /-- The bindings that correspond. -/
  bindings : BindingId → BindingId → Prop
  /-- The bindings that a declaration inside introduces. -/
  declares : Decl → BindingId → BindingId → Prop
  /-- The current scopes, and those around them. -/
  here : ScopeId × ScopeId
  outer : List (ScopeId × ScopeId)
  /-- The result types of the functions and lambdas around. -/
  results : List Ty

namespace Ties

/-- More corresponds than before, and nothing ceases to. -/
structure Grows (w w' : Ties) : Prop where
  scopes : ∀ c c', w.scopes c c' → w'.scopes c c'
  bindings : ∀ b b', w.bindings b b' → w'.bindings b b'
  declares : ∀ d b b', w.declares d b b' → w'.declares d b b'

lemma Grows.refl (w : Ties) : w.Grows w :=
  ⟨fun _ _ h => h,fun _ _ h => h,fun _ _ _ h => h⟩

lemma Grows.trans {w1 w2 w3 : Ties} (h : w1.Grows w2) (h' : w2.Grows w3) : w1.Grows w3 :=
  ⟨fun c c' hc => h'.scopes c c' (h.scopes c c' hc), fun b b' hb => h'.bindings b b' (h.bindings b b' hb),
    fun d b b' hd => h'.declares d b b' (h.declares d b b' hd)⟩

/-- The two runs number scopes and bindings each in its own way, but one for one. -/
structure Lawful (w : Ties) : Prop where
  scopes : ∀ {c c' e e'}, w.scopes c c' → w.scopes e e' → (c = e ↔ c' = e')
  bindings : ∀ {b b' e e'}, w.bindings b b' → w.bindings e e' → (b = e ↔ b' = e')
  declares : ∀ {d e b b' c'}, w.declares d b b' → w.declares e b c' → d = e
  zero : w.scopes 0 0
  around : ∀ x ∈ w.here :: w.outer, w.scopes x.1 x.2

/-- Corresponding scopes are inside of corresponding ones, and bind the same names. -/
structure Shares (w : Ties) (t t' : ScopeTree) : Prop where
  inRange : ∀ {c c'}, w.scopes c c' → c < t.parents.size ∧ c' < t'.parents.size
  parents : ∀ {c c'}, w.scopes c c' → Option.Rel w.scopes (t.parent? c) (t'.parent? c')
  names : ∀ {c c'}, w.scopes c c' → ∀ name, Option.Rel w.bindings (t.find? c name) (t'.find? c' name)
  current : (t.current, t'.current) = w.here
  around : (w.here :: w.outer).IsChain fun x y =>
    t.parent? x.1 = some y.1 ∧ t'.parent? x.2 = some y.2

end Ties

/-- What both runs have in common after they bound a name, which may be that of a declaration. -/
def Ties.tie (w : Ties) (k k' : BindingId) (new : Option Decl) : Ties :=
  { w with
    bindings := fun b b' => w.bindings b b' ∨ b = k ∧ b' = k'
    declares := fun d b b' => w.declares d b b' ∨ new = some d ∧ b = k ∧ b' = k' }

/-- The bindings are bound to the same. Constants are declared in the module only at places in `L`. -/
structure Shared (L : List (Node × Env)) (w : Ties) (s s' : State) (b b' : BindingId)
    (x x' : Binding) : Prop where
  left : s.scopes.bindings[b]? = some x
  right : s'.scopes.bindings[b']? = some x'
  scope : w.scopes x.scope x'.scope
  referent : x'.referent = x.referent
  alike : x.referent.Alike (fun _ => True) (fun _ => True) x.referent
  pending : ∀ type, x.referent = .const type .pending → type = none
  const : x.referent.isConst = true → x.scope ≠ 0 ∧ x'.scope ≠ 0 ∧
    ∃ d Γ, s.constants[b]? = some d ∧ s'.constants[b']? = some d ∧ d.located Γ ⊆ L

/-- What corresponding bindings are bound to. -/
inductive Paired (L : List (Node × Env)) (w : Ties) (s s' : State) (b b' : BindingId) : Prop where
  /-- They are one constant of the module, which may have come to different stages. -/
  | constant {name : String} {type type' : Option Ty} {stage stage' : ConstStage}
    (hb : s.scopes.find? 0 name = some b) (hb' : s'.scopes.find? 0 name = some b')
    (hr : s.referent? b = some (.const type stage)) (hr' : s'.referent? b' = some (.const type' stage'))
  /-- All else is the same in both runs. -/
  | shared {x x' : Binding} (h : Shared L w s s' b b' x x')

/-- What the name of a declaration is bound to. -/
def Decl.Fits : Decl → Referent → Prop
  | .var _, r => r.isVar = true
  | .const _, r => r.isConst = true
  | .func d, r => ∃ t params, r = .func t params ∧ (t ≠ .error → params.length = d.params.length)

/-- An examination in two runs. -/
structure Setting where
  /-- The state in which the names of the module were bound. -/
  hoisted : State
  /-- The nodes that are examined, each in its place. -/
  nodes : List (Node × Env)
  left : Start
  right : Start

/-- States of the two runs while they examine the same. -/
structure Setting.Twin (S : Setting) (w : Ties) (s s' : State) : Prop where
  left : S.left.Since S.nodes s
  right : S.right.Since S.nodes s'
  /-- The same errors were reported since the start that have nothing to do with constants of the module. -/
  steady : ∃ codes, S.hoisted.Steady s (S.left.base ++ codes) ∧ S.hoisted.Steady s' (S.right.base ++ codes)
  lawful : w.Lawful
  shares : w.Shares s.scopes s'.scopes
  /-- Each pair is one of the names of the module, or was bound since the start. -/
  origin : ∀ b b', w.bindings b b' →
    (∃ name, S.left.state.scopes.find? 0 name = some b ∧ S.right.state.scopes.find? 0 name = some b') ∨
      S.left.state.referent? b = none ∧ S.right.state.referent? b' = none
  paired : ∀ b b', w.bindings b b' → Paired S.nodes w s s' b b'
  results : s.resultTypes = w.results ∧ s'.resultTypes = w.results
  introduces : ∀ d Γ, (Node.decl d, Γ) ∈ S.nodes → Option.Rel (w.declares d) s.introduces[d.id]? s'.introduces[d.id]?
  declares : ∀ d b b', w.declares d b b' → w.bindings b b' ∧ S.left.state.referent? b = none ∧
    S.right.state.referent? b' = none ∧ ∃ r, s.referent? b = some r ∧ d.Fits r

/-! ## What stays of a pair of bindings -/

lemma optionRel_mono {α β : Type} {r r' : α → β → Prop} (h : ∀ a b, r a b → r' a b) {x : Option α}
    {y : Option β} (hxy : Option.Rel r x y) : Option.Rel r' x y := by
  cases hxy with
  | none => exact .none
  | some hab => exact .some (h _ _ hab)

namespace State

/-- Nothing happens to the binding, unless it is a constant of the module. -/
structure Spares (s t : State) (b : BindingId) : Prop where
  find? : ∀ name, t.scopes.find? 0 name = s.scopes.find? 0 name
  constants : ∀ d, s.constants[b]? = some d → t.constants[b]? = some d
  bindings : ∀ x, s.scopes.bindings[b]? = some x → ∃ x', t.scopes.bindings[b]? = some x' ∧
    (x' = x ∨ x.scope = 0 ∧ x.referent.isConst = true ∧ x'.referent.isConst = true)

variable {s0 s t : State} {b e : BindingId} {l codes : List String}

lemma spares_of_bindings (hbindings : t.scopes.bindings = s.scopes.bindings)
    (hconst : t.constants = s.constants) (b : BindingId) : s.Spares t b where
  find? name := by
    unfold ScopeTree.find?
    rw [hbindings]
  constants d hd := hconst ▸ hd
  bindings x hx := ⟨x,hbindings ▸ hx,.inl rfl⟩

lemma Settles.spares (h : s0.Settles s l codes t) (b : BindingId) : s.Spares t b where
  find? name := h.find? 0 name
  constants d hd := h.constants ▸ hd
  bindings x hx := by
    obtain ⟨x',hx',hsettled⟩ := h.exists_binding hx
    refine ⟨x',hx',?_⟩
    cases hsettled with
    | same => exact .inl rfl
    | done hscope hr | failed hscope hr => exact .inr ⟨hscope,by rw [hr]; rfl,rfl⟩

lemma spares_marked (hne : e ≠ b) (f : Referent → Referent) : s.Spares (s.marked e f) b where
  find? name := find?_marked s e f 0 name
  constants _ hd := hd
  bindings x hx := ⟨x,by rw [bindings_marked, if_neg hne, hx],.inl rfl⟩

lemma spares_bind {x : Binding} (ht : t.scopes = s.scopes.bind x) (hscope : x.scope ≠ 0)
    (hconst : ∀ d, s.constants[b]? = some d → t.constants[b]? = some d) : s.Spares t b where
  find? name := by
    rw [ht, ScopeTree.find?_bind, if_neg fun h => hscope h.1, or_none]
  constants := hconst
  bindings y hy := by
    refine ⟨y,?_,.inl rfl⟩
    rw [ht, ScopeTree.bind, Array.getElem?_push, if_neg (Nat.ne_of_lt (Array.getElem?_eq_some_iff.1 hy).1), hy]

lemma Spares.referent?_const (h : s.Spares t b) {type : Option Ty} {stage : ConstStage}
    (hr : s.referent? b = some (.const type stage)) : ∃ type' stage', t.referent? b = some (.const type' stage') := by
  obtain ⟨x,hx,hreferent⟩ := map_eq_some_iff.1 hr
  obtain ⟨x',hx',rfl | ⟨-,-,hconst⟩⟩ := h.bindings x hx
  · exact ⟨type,stage,(referent?_eq_some hx').trans (congrArg some hreferent)⟩
  · cases hr' : x'.referent with
    | const type' stage' => exact ⟨type',stage',(referent?_eq_some hx').trans (congrArg some hr')⟩
    | var | func => rw [hr'] at hconst; cases hconst

end State

/-- The state after a name was bound, which may be that of a declaration. -/
def State.admitted (s : State) (x : Binding) : Option Decl → State
  | none => s.bound x
  | some d => (s.bound x).step (.introduced d s.scopes.bindings.size)

namespace State

variable {s : State} {x : Binding} {new : Option Decl} {b : BindingId}

lemma scopes_admitted : (s.admitted x new).scopes = s.scopes.bind x := by
  cases new <;> rfl

lemma referent?_admitted (b : BindingId) : (s.admitted x new).referent? b = (s.bound x).referent? b := by
  cases new <;> rfl

lemma constants_admitted (hb : b < s.scopes.bindings.size) : (s.admitted x new).constants[b]? = s.constants[b]? := by
  match new with
  | some (.const c) => exact (Table.getElem?_insert ..).trans (if_neg (Nat.ne_of_lt hb).symm)
  | none | some (.var _) | some (.func _) => rfl

lemma introduces_admitted (id : NodeId) : (s.admitted x new).introduces[id]? =
    if new.any (·.id = id) then some s.scopes.bindings.size else s.introduces[id]? := by
  cases new with
  | none => rfl
  | some d =>
    refine (Table.getElem?_insert ..).trans ?_
    simp only [any_some, decide_eq_true_eq]
    rfl

lemma spares_admitted (hscope : x.scope ≠ 0) (hb : b < s.scopes.bindings.size) : s.Spares (s.admitted x new) b :=
  spares_bind scopes_admitted hscope fun _ hd => (constants_admitted hb).trans hd

lemma alongside_admitted (hscope : x.scope ≠ 0) : s.Alongside (s.admitted x new) where
  find? name := by
    rw [scopes_admitted]
    exact (alongside_bound hscope).find? name
  constants name b hb := by
    obtain ⟨⟨y,hy,-⟩,-⟩ := ScopeTree.find?_eq_some_iff.1 hb
    exact constants_admitted (Array.getElem?_eq_some_iff.1 hy).1
  referents name b hb := by
    rw [referent?_admitted]
    exact (alongside_bound hscope).referents name b hb

lemma errors_admitted : (s.admitted x new).errors = s.errors := by
  cases new <;> rfl

lemma resultTypes_admitted : (s.admitted x new).resultTypes = s.resultTypes := by
  cases new <;> rfl

end State

lemma Start.Since.admitted {a : Start} {L : List (Node × Env)} {s : State} {x : Binding}
    {new : Option Decl} (h : a.Since L s) (hscope : x.scope ≠ 0) (hlt : x.scope < s.scopes.parents.size)
    (hnew : ∀ d ∈ new, ∃ Γ, (Node.decl d, Γ) ∈ L) : a.Since L (s.admitted x new) := by
  refine h.bind State.scopes_admitted hscope hlt fun id hid => ?_
  rw [State.introduces_admitted, if_neg]
  rw [any_eq_true]
  rintro ⟨d,hd,heq⟩
  obtain ⟨Γ,hΓ⟩ := hnew d hd
  exact hid d Γ hΓ (of_decide_eq_true heq)

section Pairs

variable {L : List (Node × Env)} {w w' : Ties} {s s' t t' : State} {b b' : BindingId}

lemma Shared.spare {x x' : Binding} (h : Shared L w s s' b b' x x') (hw : w.Grows w')
    (hs : s.Spares t b) (hs' : s'.Spares t' b') : Shared L w' t t' b b' x x' := by
  obtain ⟨y,hy,rfl | ⟨hscope,hconst,-⟩⟩ := hs.bindings x h.left
  · obtain ⟨y',hy',rfl | ⟨hscope',hconst',-⟩⟩ := hs'.bindings x' h.right
    · refine ⟨hy,hy',hw.scopes _ _ h.scope,h.referent,h.alike,h.pending,fun hconst => ?_⟩
      obtain ⟨hscope,hscope',d,Γ,hd,hd',hsub⟩ := h.const hconst
      exact ⟨hscope,hscope',d,Γ,hs.constants d hd,hs'.constants d hd',hsub⟩
    · exact absurd hscope' (h.const (h.referent ▸ hconst')).2.1
  · exact absurd hscope (h.const hconst).1

lemma Paired.spare (h : Paired L w s s' b b') (hw : w.Grows w') (hs : s.Spares t b)
    (hs' : s'.Spares t' b') : Paired L w' t t' b b' := by
  cases h with
  | constant hb hb' hr hr' =>
    obtain ⟨type,stage,hr⟩ := hs.referent?_const hr
    obtain ⟨type',stage',hr'⟩ := hs'.referent?_const hr'
    exact .constant ((hs.find? _).trans hb) ((hs'.find? _).trans hb') hr hr'
  | shared h => exact .shared (h.spare hw hs hs')

lemma Paired.exists_bindings (h : Paired L w s s' b b') :
    ∃ x x', s.scopes.bindings[b]? = some x ∧ s'.scopes.bindings[b']? = some x' := by
  cases h with
  | constant hb hb' =>
    obtain ⟨⟨x,hx,-⟩,-⟩ := ScopeTree.find?_eq_some_iff.1 hb
    obtain ⟨⟨x',hx',-⟩,-⟩ := ScopeTree.find?_eq_some_iff.1 hb'
    exact ⟨x,x',hx,hx'⟩
  | shared h => exact ⟨_,_,h.left,h.right⟩

end Pairs

/-! ## Steps of both runs -/

namespace Setting.Twin

variable {S : Setting} {w w1 : Ties} {s s' t t' : State} {b b' : BindingId}

section

variable (h : S.Twin w s s')
include h

/-- A name refers to corresponding bindings from corresponding scopes. -/
theorem nearest? (name : String) : ∀ (c : Nat) {c' : ScopeId}, w.scopes c c' →
    Option.Rel w.bindings (s.scopes.nearest? c name) (s'.scopes.nearest? c' name) := by
  intro c
  induction c using Nat.strong_induction_on with
  | _ c ih =>
    intro c' hc
    rw [h.left.intact.nearest?_eq, h.right.intact.nearest?_eq]
    have hname := h.shares.names hc name
    have hparent := h.shares.parents hc
    generalize s.scopes.find? c name = b, s'.scopes.find? c' name = b' at hname
    cases hname with
    | some hb => exact .some hb
    | none =>
      generalize hp : s.scopes.parent? c = p, s'.scopes.parent? c' = p' at hparent
      cases hparent with
      | none => exact .none
      | @some p p' hpp => exact ih p (h.left.intact.parents c p hp) hpp

lemma update (hscopes : t.scopes = s.scopes) (hscopes' : t'.scopes = s'.scopes)
    (hintro : t.introduces = s.introduces) (hintro' : t'.introduces = s'.introduces)
    (hconst : t.constants = s.constants) (hconst' : t'.constants = s'.constants) {results : List Ty}
    (hresults : t.resultTypes = results ∧ t'.resultTypes = results)
    (hsteady : ∃ codes, S.hoisted.Steady t (S.left.base ++ codes) ∧
      S.hoisted.Steady t' (S.right.base ++ codes)) : S.Twin { w with results := results } t t' where
  left := h.left.of_bindings (hscopes ▸ h.left.intact) (by rw [hscopes]) hintro
  right := h.right.of_bindings (hscopes' ▸ h.right.intact) (by rw [hscopes']) hintro'
  steady := hsteady
  lawful := ⟨h.lawful.scopes,h.lawful.bindings,h.lawful.declares,h.lawful.zero,h.lawful.around⟩
  shares := by
    rw [hscopes, hscopes']
    exact ⟨h.shares.inRange,h.shares.parents,h.shares.names,h.shares.current,h.shares.around⟩
  origin := h.origin
  paired b b' hb := (h.paired b b' hb).spare ⟨fun _ _ h => h,fun _ _ h => h,fun _ _ _ h => h⟩
    (State.spares_of_bindings (by rw [hscopes]) hconst b)
    (State.spares_of_bindings (by rw [hscopes']) hconst' b')
  results := hresults
  introduces := by
    rw [hintro, hintro']
    exact h.introduces
  declares d b b' hd := by
    obtain ⟨hb,hnew,hnew',r,hr,hfits⟩ := h.declares d b b' hd
    refine ⟨hb,hnew,hnew',r,?_,hfits⟩
    rw [Findings.referent?, hscopes]
    exact hr

lemma noted (ht : s.Noted t) (ht' : s'.Noted t') : S.Twin w t t' := by
  obtain ⟨codes,hsteady,hsteady'⟩ := h.steady
  exact h.update ht.scopes ht'.scopes ht.introduces ht'.introduces ht.constants ht'.constants
    ⟨ht.resultTypes.trans h.results.1,ht'.resultTypes.trans h.results.2⟩
    ⟨codes,hsteady.noted ht,hsteady'.noted ht'⟩

lemma ended (stop : Stop) : S.Twin w (s.step stop.event) (s'.step stop.event) := by
  obtain ⟨codes,hsteady,hsteady'⟩ := h.steady
  cases stop with
  | error e =>
    refine h.update (show (s.step (.reported e)).scopes = _ from rfl)
      (show (s'.step (.reported e)).scopes = _ from rfl) rfl rfl rfl rfl h.results
      ⟨codes ++ [e.cause.code],?_,?_⟩
    · rw [← List.append_assoc]
      exact hsteady.reported e
    · rw [← List.append_assoc]
      exact hsteady'.reported e
  | blocked => exact h.noted (s.noted_step rfl) (s'.noted_step rfl)

lemma settles {l l' codes codes' : List String} (hs : S.hoisted.Settles s l codes t) (hs' : S.hoisted.Settles s' l' codes' t')
    (hsteady : ∀ base, S.hoisted.Steady s base → S.hoisted.Steady t base)
    (hsteady' : ∀ base, S.hoisted.Steady s' base → S.hoisted.Steady t' base) : S.Twin w t t' where
  left := h.left.settles hs
  right := h.right.settles hs'
  steady := by
    obtain ⟨codes,hcodes,hcodes'⟩ := h.steady
    exact ⟨codes,hsteady _ hcodes,hsteady' _ hcodes'⟩
  lawful := h.lawful
  shares := by
    have hparent (c) : t.scopes.parent? c = s.scopes.parent? c := by
      rw [ScopeTree.parent?, hs.parents]
      rfl
    have hparent' (c) : t'.scopes.parent? c = s'.scopes.parent? c := by
      rw [ScopeTree.parent?, hs'.parents]
      rfl
    refine ⟨fun hc => ?_,fun hc => ?_,fun hc name => ?_,?_,?_⟩
    · rw [hs.parents, hs'.parents]
      exact h.shares.inRange hc
    · rw [hparent, hparent']
      exact h.shares.parents hc
    · rw [hs.find?, hs'.find?]
      exact h.shares.names hc name
    · rw [hs.current, hs'.current]
      exact h.shares.current
    · simp only [hparent, hparent']
      exact h.shares.around
  origin := h.origin
  paired b b' hb := (h.paired b b' hb).spare (.refl w) (hs.spares b) (hs'.spares b')
  results := ⟨hs.resultTypes.trans h.results.1,hs'.resultTypes.trans h.results.2⟩
  introduces := by
    rw [hs.introduces, hs'.introduces]
    exact h.introduces
  declares d b b' hd := by
    obtain ⟨hb,hnew,hnew',r,hr,hfits⟩ := h.declares d b b' hd
    refine ⟨hb,hnew,hnew',?_⟩
    obtain ⟨x,hx,rfl⟩ := map_eq_some_iff.1 hr
    obtain ⟨x',hx',hsettled⟩ := hs.exists_binding hx
    cases hsettled with
    | same => exact ⟨x.referent,State.referent?_eq_some hx',hfits⟩
    | done _ hr | failed _ hr =>
      refine ⟨_,State.referent?_eq_some hx',?_⟩
      rw [hr] at hfits
      cases d with
      | const => rfl
      | var => cases hfits
      | func => obtain ⟨_,_,heq,-⟩ := hfits; cases heq

lemma entered : S.Twin { w with
        scopes := fun c c' => w.scopes c c' ∨ c = s.scopes.parents.size ∧ c' = s'.scopes.parents.size
        here := (s.scopes.parents.size, s'.scopes.parents.size)
        outer := w.here :: w.outer }
      (s.step .entered) (s'.step .entered) where
  left := h.left.of_bindings h.left.intact.enter rfl rfl
  right := h.right.of_bindings h.right.intact.enter rfl rfl
  steady := by
    obtain ⟨codes,hsteady,hsteady'⟩ := h.steady
    exact ⟨codes,hsteady.alongside (State.alongside_of_bindings rfl rfl) rfl,
      hsteady'.alongside (State.alongside_of_bindings rfl rfl) rfl⟩
  lawful := by
    refine ⟨?_,h.lawful.bindings,h.lawful.declares,.inl h.lawful.zero,?_⟩
    · rintro c c' e e' (hc | ⟨rfl,rfl⟩) (he | ⟨rfl,rfl⟩)
      · exact h.lawful.scopes hc he
      · have hlt := h.shares.inRange hc
        exact iff_of_false (Nat.ne_of_lt hlt.1) (Nat.ne_of_lt hlt.2)
      · have hlt := h.shares.inRange he
        exact iff_of_false (Nat.ne_of_lt hlt.1).symm (Nat.ne_of_lt hlt.2).symm
      · exact iff_of_true rfl rfl
    · exact List.forall_mem_cons.2 ⟨.inr ⟨rfl,rfl⟩,fun x hx => .inl (h.lawful.around x hx)⟩
  shares := by
    have hold (u : State) {c : ScopeId} (hc : c < u.scopes.parents.size) :
        (u.step .entered).scopes.parent? c = u.scopes.parent? c := by
      change ((u.scopes.parents.push _)[c]?).join = _
      rw [Array.getElem?_push, if_neg (Nat.ne_of_lt hc)]
      rfl
    have hnew (u : State) : (u.step .entered).scopes.parent? u.scopes.parents.size = some u.scopes.current := by
      change ((u.scopes.parents.push _)[u.scopes.parents.size]?).join = _
      rw [Array.getElem?_push, if_pos rfl]
      rfl
    have hnone {u : State} (hu : u.scopes.Intact) (name : String) :
        (u.step .entered).scopes.find? u.scopes.parents.size name = none := by
      refine eq_none_iff_forall_ne_some.2 fun b hb => ?_
      obtain ⟨⟨x,hx,hscope,-⟩,-⟩ := ScopeTree.find?_eq_some_iff.1 hb
      exact Nat.lt_irrefl _ (hscope ▸ hu.bindings x (Array.mem_of_getElem? hx))
    have hsize (u : State) : (u.step .entered).scopes.parents.size = u.scopes.parents.size + 1 :=
      Array.size_push _
    have hcurrent : w.scopes s.scopes.current s'.scopes.current := by
      have hhere := h.lawful.around w.here (.head _)
      rwa [← h.shares.current] at hhere
    refine ⟨?_,?_,?_,rfl,?_⟩
    · rintro c c' (hc | ⟨rfl,rfl⟩)
      · rw [hsize, hsize]
        exact ⟨Nat.lt_succ_of_lt (h.shares.inRange hc).1,Nat.lt_succ_of_lt (h.shares.inRange hc).2⟩
      · rw [hsize, hsize]
        exact ⟨Nat.lt_succ_self _,Nat.lt_succ_self _⟩
    · rintro c c' (hc | ⟨rfl,rfl⟩)
      · rw [hold s (h.shares.inRange hc).1, hold s' (h.shares.inRange hc).2]
        exact optionRel_mono (fun _ _ => .inl) (h.shares.parents hc)
      · rw [hnew, hnew]
        exact .some (.inl hcurrent)
    · rintro c c' (hc | ⟨rfl,rfl⟩) name
      · exact h.shares.names hc name
      · rw [hnone h.left.intact, hnone h.right.intact]
        exact .none
    · refine List.IsChain.cons_cons ⟨?_,?_⟩ (h.shares.around.imp_of_mem_imp ?_)
      · rw [hnew, ← h.shares.current]
      · rw [hnew, ← h.shares.current]
      · intro x y hx _ hxy
        have hlt := h.shares.inRange (h.lawful.around x hx)
        rwa [hold s hlt.1, hold s' hlt.2]
  origin := h.origin
  paired b b' hb := by
    refine (h.paired b b' hb).spare ⟨fun _ _ => .inl,fun _ _ h => h,fun _ _ _ h => h⟩ ?_ ?_
    · exact State.spares_of_bindings (s := s) (t := s.step .entered) rfl rfl b
    · exact State.spares_of_bindings (s := s') (t := s'.step .entered) rfl rfl b'
  results := h.results
  introduces := h.introduces
  declares := h.declares

lemma left_scope {around : ScopeId × ScopeId} {outer : List (ScopeId × ScopeId)} (houter : w.outer = around :: outer) :
    S.Twin { w with here := around, outer := outer } (s.step .left) (s'.step .left) where
  left := h.left.of_bindings h.left.intact.leave rfl rfl
  right := h.right.of_bindings h.right.intact.leave rfl rfl
  steady := by
    obtain ⟨codes,hsteady,hsteady'⟩ := h.steady
    exact ⟨codes,hsteady.alongside (State.alongside_of_bindings rfl rfl) rfl,
      hsteady'.alongside (State.alongside_of_bindings rfl rfl) rfl⟩
  lawful := by
    refine ⟨h.lawful.scopes,h.lawful.bindings,h.lawful.declares,h.lawful.zero,fun x hx => ?_⟩
    exact h.lawful.around x (.tail _ (houter ▸ hx))
  shares := by
    have haround := h.shares.around
    rw [houter, List.isChain_cons_cons, ← h.shares.current] at haround
    obtain ⟨⟨hparent,hparent'⟩,hrest⟩ := haround
    refine ⟨h.shares.inRange,h.shares.parents,h.shares.names,?_,hrest⟩
    change ((s.scopes.parent? s.scopes.current).getD _, (s'.scopes.parent? s'.scopes.current).getD _) = _
    rw [hparent, hparent']
    rfl
  origin := h.origin
  paired b b' hb := by
    refine (h.paired b b' hb).spare ⟨fun _ _ h => h,fun _ _ h => h,fun _ _ _ h => h⟩ ?_ ?_
    · exact State.spares_of_bindings (s := s) (t := s.step .left) rfl rfl b
    · exact State.spares_of_bindings (s := s') (t := s'.step .left) rfl rfl b'
  results := h.results
  introduces := h.introduces
  declares := h.declares

lemma admitted (hnodup : (S.nodes.map (·.1.id)).Nodup) (hlocal : w.here.1 ≠ 0)
    (name : String) (span : Span) (r : Referent) (new : Option Decl) (halike : r.Alike (fun _ => True) (fun _ => True) r)
    (hpending : ∀ type, r = .const type .pending → type = none) (hnew : ∀ d ∈ new, (∃ Γ, (Node.decl d, Γ) ∈ S.nodes) ∧ d.Fits r)
    (hconst : r.isConst = true → ∃ c Γ, new = some (.const c) ∧ c.located Γ ⊆ S.nodes) :
    S.Twin (w.tie s.scopes.bindings.size s'.scopes.bindings.size new)
      (s.admitted ⟨name,w.here.1,span,r⟩ new) (s'.admitted ⟨name,w.here.2,span,r⟩ new) := by
  have hhere := h.lawful.around w.here (.head _)
  have hlocal' : w.here.2 ≠ 0 := fun heq => hlocal ((h.lawful.scopes hhere h.lawful.zero).2 heq)
  have hlt := h.shares.inRange hhere
  have hold {b b'} (hb : w.bindings b b') : b < s.scopes.bindings.size ∧ b' < s'.scopes.bindings.size := by
    obtain ⟨x,x',hx,hx'⟩ := (h.paired b b' hb).exists_bindings
    exact ⟨(Array.getElem?_eq_some_iff.1 hx).1,(Array.getElem?_eq_some_iff.1 hx').1⟩
  have hgrows : w.Grows (w.tie s.scopes.bindings.size s'.scopes.bindings.size new) :=
    ⟨fun _ _ h => h,fun _ _ => .inl,fun _ _ _ => .inl⟩
  have hnode (d) (hd : d ∈ new) := (hnew d hd).1
  refine ⟨h.left.admitted hlocal hlt.1 hnode,h.right.admitted hlocal' hlt.2 hnode,?_,?_,?_,?_,?_,?_,?_,?_⟩
  · obtain ⟨codes,hsteady,hsteady'⟩ := h.steady
    exact ⟨codes,hsteady.alongside (State.alongside_admitted hlocal) State.errors_admitted,
      hsteady'.alongside (State.alongside_admitted hlocal') State.errors_admitted⟩
  · refine ⟨h.lawful.scopes,?_,?_,h.lawful.zero,h.lawful.around⟩
    · rintro b b' e e' (hb | ⟨rfl,rfl⟩) (he | ⟨rfl,rfl⟩)
      · exact h.lawful.bindings hb he
      · exact iff_of_false (Nat.ne_of_lt (hold hb).1) (Nat.ne_of_lt (hold hb).2)
      · exact iff_of_false (Nat.ne_of_lt (hold he).1).symm (Nat.ne_of_lt (hold he).2).symm
      · exact iff_of_true rfl rfl
    · rintro d e b b' c' (hd | ⟨hd,rfl,rfl⟩) (he | ⟨he,heq,rfl⟩)
      · exact h.lawful.declares hd he
      · exact absurd heq (Nat.ne_of_lt (hold (h.declares _ _ _ hd).1).1)
      · exact absurd rfl (Nat.ne_of_lt (hold (h.declares _ _ _ he).1).1)
      · exact mem_unique hd he
  · rw [State.scopes_admitted, State.scopes_admitted]
    refine ⟨h.shares.inRange,h.shares.parents,fun {c c'} hc n => ?_,h.shares.current,h.shares.around⟩
    rw [ScopeTree.find?_bind, ScopeTree.find?_bind]
    have hname := h.shares.names hc n
    have hiff := h.lawful.scopes hhere hc
    generalize s.scopes.find? c n = b, s'.scopes.find? c' n = b' at hname
    cases hname with
    | some hb => exact .some (.inl hb)
    | none =>
      by_cases hmatch : w.here.1 = c ∧ name = n
      · rw [if_pos hmatch, if_pos ⟨hiff.1 hmatch.1,hmatch.2⟩]
        exact .some (.inr ⟨rfl,rfl⟩)
      · rw [if_neg hmatch, if_neg fun hmatch' => hmatch ⟨hiff.2 hmatch'.1,hmatch'.2⟩]
        exact .none
  · rintro b b' (hb | ⟨rfl,rfl⟩)
    · exact h.origin b b' hb
    · exact .inr ⟨h.left.grown _ (referent?_size s),h.right.grown _ (referent?_size s')⟩
  · rintro b b' (hb | ⟨rfl,rfl⟩)
    · exact (h.paired b b' hb).spare hgrows (State.spares_admitted hlocal (hold hb).1)
        (State.spares_admitted hlocal' (hold hb).2)
    · have hself (u : State) (x : Binding) :
          (u.admitted x new).scopes.bindings[u.scopes.bindings.size]? = some x := by
        rw [State.scopes_admitted, ScopeTree.bind, Array.getElem?_push, if_pos rfl]
      refine .shared ⟨hself s _,hself s' _,hhere,rfl,halike,hpending,fun hr => ?_⟩
      obtain ⟨c,Γ,rfl,hsub⟩ := hconst hr
      refine ⟨hlocal,hlocal',c,Γ,?_,?_,hsub⟩
      · exact (Table.getElem?_insert ..).trans (if_pos rfl)
      · exact (Table.getElem?_insert ..).trans (if_pos rfl)
  · rw [State.resultTypes_admitted, State.resultTypes_admitted]
    exact h.results
  · intro d Γ hd
    rw [State.introduces_admitted, State.introduces_admitted]
    split
    · next hany =>
      obtain ⟨e,he,heq⟩ := (any_eq_true _ _).1 hany
      obtain ⟨Γ',he'⟩ := hnode e he
      obtain rfl := decl_eq_of_id hnodup he' hd (of_decide_eq_true heq)
      exact .some (.inr ⟨he,rfl,rfl⟩)
    · exact optionRel_mono (fun _ _ => .inl) (h.introduces d Γ hd)
  · rintro d b b' (hd | ⟨hd,rfl,rfl⟩)
    · obtain ⟨hb,hb0,hb0',r',hr',hfits⟩ := h.declares d b b' hd
      refine ⟨.inl hb,hb0,hb0',r',?_,hfits⟩
      rw [State.referent?_admitted]
      exact referent?_bound_of_some hr'
    · refine ⟨.inr ⟨rfl,rfl⟩,h.left.grown _ (referent?_size s),h.right.grown _ (referent?_size s'),r,?_,(hnew d hd).2⟩
      rw [State.referent?_admitted, referent?_bound, if_pos rfl]

lemma marked {x x' : Binding} {f : Referent → Referent} (hb : w.bindings b b')
    (hx : Shared S.nodes w s s' b b' x x') (hleft : S.left.state.referent? b = none ∨ S.left.own = some b)
    (hright : S.right.state.referent? b' = none ∨ S.right.own = some b') (hword : (f x.referent).word = x.referent.word)
    (halike : (f x.referent).Alike (fun _ => True) (fun _ => True) (f x.referent))
    (hpending : ∀ type, f x.referent = .const type .pending → type = none)
    (hfits : ∀ d, w.declares d b b' → d.Fits x.referent → d.Fits (f x.referent)) :
    S.Twin w (s.marked b f) (s'.marked b' f) := by
  have hconst : (f x.referent).isConst = x.referent.isConst := by
    cases hr : x.referent <;> cases hr' : f x.referent <;> simp_all [Referent.word, Referent.isConst]
  have hmodule {y : Binding} (hy : y.referent = x.referent) (hscope : x.referent.isConst = true → y.scope ≠ 0) :
      y.scope = 0 → (f y.referent).word = y.referent.word ∧ y.referent.isConst = false := by
    intro hzero
    rw [hy]
    exact ⟨hword,Bool.eq_false_iff.2 fun hc => hscope hc hzero⟩
  refine ⟨h.left.marked hleft,h.right.marked hright,?_,h.lawful,?_,h.origin,?_,h.results,h.introduces,?_⟩
  · obtain ⟨codes,hsteady,hsteady'⟩ := h.steady
    refine ⟨codes,hsteady.alongside (State.alongside_marked hx.left ?_) rfl,
      hsteady'.alongside (State.alongside_marked hx.right ?_) rfl⟩
    · exact hmodule rfl fun hc => (hx.const hc).1
    · exact hmodule hx.referent fun hc => (hx.const hc).2.1
  · refine ⟨h.shares.inRange,h.shares.parents,fun {c c'} hc name => ?_,h.shares.current,h.shares.around⟩
    rw [find?_marked, find?_marked]
    exact h.shares.names hc name
  · intro e e' he
    by_cases hbe : b = e
    · obtain rfl := hbe
      obtain rfl := (h.lawful.bindings hb he).1 rfl
      have hself {u : State} {e : BindingId} {y : Binding} (hy : u.scopes.bindings[e]? = some y) :
          (u.marked e f).scopes.bindings[e]? = some { y with referent := f y.referent } := by
        rw [bindings_marked, if_pos rfl, hy]
        rfl
      exact .shared ⟨hself hx.left,hself hx.right,hx.scope,congrArg f hx.referent,halike,hpending,
        fun hc => hx.const (hconst ▸ hc)⟩
    · have hbe' : b' ≠ e' := fun heq => hbe ((h.lawful.bindings hb he).2 heq)
      exact (h.paired e e' he).spare (.refl w) (State.spares_marked hbe f) (State.spares_marked hbe' f)
  · intro d e e' hd
    obtain ⟨he,hnew,hnew',r,hr,hfit⟩ := h.declares d e e' hd
    refine ⟨he,hnew,hnew',?_⟩
    by_cases hbe : b = e
    · obtain rfl := hbe
      obtain rfl := (h.lawful.bindings hb he).1 rfl
      obtain rfl := mem_unique (State.referent?_eq_some hx.left) hr
      exact ⟨_,referent?_marked_self hr,hfits d hd hfit⟩
    · exact ⟨r,(referent?_marked_of_ne hbe).trans hr,hfit⟩

end

end Setting.Twin

end Opal
