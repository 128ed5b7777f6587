import Opal.Check.Module
import Opal.Proofs.Verdicts

/-!
# Constants that were evaluated

Constants are evaluated in an order that depends on where they are needed. At any time, those that were evaluated have the value
that they have by the rules, or have failed if they have none.
-/

namespace Opal

open List Option

lemma ScopeTree.find?_congr {t t' : ScopeTree} (h : ∀ b : BindingId, (t'.bindings[b]?).map (fun x => (x.scope, x.name)) =
      (t.bindings[b]?).map fun x => (x.scope, x.name)) (c : ScopeId) (name : String) : t'.find? c name = t.find? c name := by
  have himp {t t' : ScopeTree} (h : ∀ b : BindingId, (t'.bindings[b]?).map (fun x => (x.scope, x.name)) =
        (t.bindings[b]?).map fun x => (x.scope, x.name)) {b : BindingId}
      (hb : t.find? c name = some b) : t'.find? c name = some b := by
    obtain ⟨⟨x,hx,hscope,hname⟩,hfirst⟩ := find?_eq_some_iff.1 hb
    have hxb := h b
    rw [hx] at hxb
    obtain ⟨x',hx',heq⟩ := map_eq_some_iff.1 hxb
    obtain ⟨hscope',hname'⟩ := Prod.mk.inj heq
    refine find?_eq_some_iff.2 ⟨⟨x',hx',hscope'.trans hscope,hname'.trans hname⟩,?_⟩
    rintro a y hlt hy ⟨hys,hyn⟩
    have hya := h a
    rw [hy] at hya
    obtain ⟨y',hy',heq⟩ := map_eq_some_iff.1 hya.symm
    obtain ⟨hs,hn⟩ := Prod.mk.inj heq
    exact hfirst a y' hlt hy' ⟨hs.trans hys,hn.trans hyn⟩
  cases hb : t.find? c name with
  | some b => exact himp h hb
  | none =>
    refine eq_none_iff_forall_ne_some.2 fun b hb' => ?_
    cases hb.symm.trans (himp (fun a => (h a).symm) hb')

lemma bindings_marked (s : State) (b : BindingId) (f : Referent → Referent) (a : BindingId) :
    (s.marked b f).scopes.bindings[a]? = if b = a
      then (s.scopes.bindings[a]?).map (fun x => { x with referent := f x.referent })
      else s.scopes.bindings[a]? := by
  simp only [State.marked, ScopeTree.modifyReferent, Array.getElem?_modify]

lemma find?_marked (s : State) (b : BindingId) (f : Referent → Referent) (c : ScopeId)
    (name : String) : (s.marked b f).scopes.find? c name = s.scopes.find? c name := by
  refine ScopeTree.find?_congr (fun a => ?_) c name
  rw [bindings_marked]
  split
  · rw [Option.map_map]
    rfl
  · rfl

/-- The stage of a constant agrees with its value. -/
def ConstStage.Agrees (type : Option Ty) (value : Option Value) : ConstStage → Prop
  | .pending | .inProgress => type = none
  | .done v => type = some v.type ∧ value = some v
  | .failed => type = some .error ∧ value = none

namespace State

def global? (s : State) (name : String) : Option Referent :=
  (s.scopes.find? 0 name).bind s.referent?

/-- No constant was evaluated yet. -/
structure Unevaluated (s0 : State) : Prop where
  pending : ∀ k type stage, s0.referent? k = some (.const type stage) → stage = .pending ∧ ∃ d, s0.constants[k]? = some d
  declared : ∀ (k : BindingId) d, s0.constants[k]? = some d → ∃ type stage, s0.referent? k = some (.const type stage)

/-- The bindings were made for one declaration. -/
structure Mirrors (s0 t : State) (k b : BindingId) : Prop where
  word : ∃ r0 r, s0.referent? k = some r0 ∧ t.referent? b = some r ∧ r0.word = r.word
  constants : t.constants[b]? = s0.constants[k]?

/-- The scope around everything declares the same as in `s0`, and its constants have come to stages that agree with their
values. -/
structure Tracks (s0 t : State) : Prop where
  names : ∀ name, Option.Rel (s0.Mirrors t) (s0.scopes.find? 0 name) (t.scopes.find? 0 name)
  stages : ∀ name type stage, t.global? name = some (.const type stage) → stage.Agrees type (s0.verdict name)

def InProgress (t : State) (name : String) : Prop :=
  t.global? name = some (.const none .inProgress)

def Failed (t : State) (name : String) : Prop :=
  t.global? name = some (.const (some .error) .failed)

/-- What becomes of a binding: a constant of the module may be evaluated, and fails only if it is in `l`. -/
inductive Settled (s0 : State) (l : List String) (x : Binding) : Binding → Prop where
  | same : Settled s0 l x x
  | done {v : Value} (hscope : x.scope = 0) (hr : x.referent = .declaredConst)
    (hv : s0.verdict x.name = some v) :
    Settled s0 l x { x with referent := .const (some v.type) (.done v) }
  | failed (hscope : x.scope = 0) (hr : x.referent = .declaredConst) (hv : s0.verdict x.name = none)
    (hl : x.name ∈ l) : Settled s0 l x { x with referent := .const (some .error) .failed }

/-- Some constants of the module were evaluated, of which those in `l` failed, and errors with these codes were
reported. -/
structure Settles (s0 t : State) (l codes : List String) (t' : State) : Prop where
  parents : t'.scopes.parents = t.scopes.parents
  current : t'.scopes.current = t.scopes.current
  introduces : t'.introduces = t.introduces
  constants : t'.constants = t.constants
  resultTypes : t'.resultTypes = t.resultTypes
  bindings : ∀ b : BindingId, Option.Rel (s0.Settled l) t.scopes.bindings[b]? t'.scopes.bindings[b]?
  failed : ∀ name ∈ l, t'.Failed name
  codes : t'.codes = t.codes ++ codes

section Lemmas

variable {s0 t t' t'' : State} {l l' codes codes' : List String} {x x' x'' : Binding}
  {b : BindingId} {name : String} {r : Referent}

lemma global?_eq_some (hb : t.scopes.find? 0 name = some b) : t.global? name = t.referent? b := by
  rw [global?, hb]
  rfl

lemma referent?_eq_some (hx : t.scopes.bindings[b]? = some x) : t.referent? b = some x.referent := by
  rw [Findings.referent?, hx]
  rfl

lemma Noted.global? (h : t.Noted t') (name : String) : t'.global? name = t.global? name := by
  unfold State.global?
  rw [h.scopes]
  congr 1
  funext b
  rw [Findings.referent?, h.scopes]
  rfl

lemma Noted.codes_eq (h : t.Noted t') : t'.codes = t.codes := by
  rw [Findings.codes, h.errors]
  rfl

lemma codes_reported (t : State) (e : SemanticError) : (t.step (.reported e)).codes = t.codes ++ [e.cause.code] := by
  change (t.errors.push e).toList.map (·.cause.code) = _
  rw [Array.toList_push, map_append]
  rfl

/-! ### What becomes of bindings -/

namespace Settled

section

variable (h : s0.Settled l x x')
include h

lemma name_eq : x'.name = x.name ∧ x'.scope = x.scope := by
  cases h with
  | same | done | failed => exact ⟨rfl,rfl⟩

lemma mono (hl : l ⊆ l') : s0.Settled l' x x' := by
  cases h with
  | same => exact .same
  | done hscope hr hv => exact .done hscope hr hv
  | failed hscope hr hv hmem => exact .failed hscope hr hv (hl hmem)

lemma eq_of_ne (hne : x.referent ≠ .declaredConst) : x' = x := by
  cases h with
  | same => rfl
  | done _ hr | failed _ hr => exact absurd hr hne

lemma trans (h' : s0.Settled l' x' x'') : s0.Settled (l ++ l') x x'' := by
  cases h with
  | same => exact h'.mono (subset_append_right l l')
  | done hscope hr hv =>
    rw [h'.eq_of_ne nofun]
    exact .done hscope hr hv
  | failed hscope hr hv hmem =>
    rw [h'.eq_of_ne nofun]
    exact .failed hscope hr hv (mem_append_left l' hmem)

lemma word_eq : x'.referent.word = x.referent.word := by
  cases h with
  | same => rfl
  | done _ hr | failed _ hr => rw [hr]; rfl

end

end Settled

/-! ### Evaluations -/

namespace Settles

lemma refl (s0 t : State) : s0.Settles t [] [] t where
  parents := rfl
  current := rfl
  introduces := rfl
  constants := rfl
  resultTypes := rfl
  bindings b := by
    cases t.scopes.bindings[b]? with
    | none => exact .none
    | some x => exact .some .same
  failed := nofun
  codes := (append_nil _).symm

section

variable (h : s0.Settles t l codes t')
include h

lemma noted (hnoted : t'.Noted t'') : s0.Settles t l codes t'' where
  parents := by rw [hnoted.scopes]; exact h.parents
  current := by rw [hnoted.scopes]; exact h.current
  introduces := hnoted.introduces.trans h.introduces
  constants := hnoted.constants.trans h.constants
  resultTypes := hnoted.resultTypes.trans h.resultTypes
  bindings := by rw [hnoted.scopes]; exact h.bindings
  failed name hname := (hnoted.global? name).trans (h.failed name hname)
  codes := hnoted.codes_eq.trans h.codes

lemma find? (c : ScopeId) (name : String) : t'.scopes.find? c name = t.scopes.find? c name := by
  refine ScopeTree.find?_congr (fun b => ?_) c name
  have hb := h.bindings b
  generalize t.scopes.bindings[b]? = x, t'.scopes.bindings[b]? = x' at hb
  cases hb with
  | none => rfl
  | some hx => simp only [map_some, hx.name_eq]

lemma exists_binding (hx : t.scopes.bindings[b]? = some x) : ∃ x', t'.scopes.bindings[b]? = some x' ∧ s0.Settled l x x' := by
  have hb := h.bindings b
  rw [hx] at hb
  generalize t'.scopes.bindings[b]? = y at hb
  cases hb with
  | some hx => exact ⟨_,rfl,hx⟩

lemma exists_binding' (hx : t'.scopes.bindings[b]? = some x') : ∃ x, t.scopes.bindings[b]? = some x ∧ s0.Settled l x x' := by
  have hb := h.bindings b
  rw [hx] at hb
  generalize t.scopes.bindings[b]? = y at hb
  cases hb with
  | some hx => exact ⟨_,rfl,hx⟩

lemma exists_global (hr : t'.global? name = some r) :
    ∃ x x', t.global? name = some x.referent ∧ x'.referent = r ∧ x.name = name ∧ s0.Settled l x x' := by
  obtain ⟨b,hb,hb'⟩ := bind_eq_some_iff.1 hr
  rw [h.find?] at hb
  obtain ⟨⟨x,hx,-,rfl⟩,-⟩ := ScopeTree.find?_eq_some_iff.1 hb
  obtain ⟨x',hx',hsettled⟩ := h.exists_binding hx
  rw [referent?_eq_some hx'] at hb'
  exact ⟨x,x',(global?_eq_some hb).trans (referent?_eq_some hx),Option.some.inj hb',rfl,hsettled⟩

lemma global?_of_ne (hr : t.global? name = some r) (hne : r ≠ .declaredConst) : t'.global? name = some r := by
  obtain ⟨b,hb,hr⟩ := bind_eq_some_iff.1 hr
  obtain ⟨x,hx,rfl⟩ := map_eq_some_iff.1 hr
  obtain ⟨x',hx',hsettled⟩ := h.exists_binding hx
  rw [global?_eq_some ((h.find? 0 name).trans hb), referent?_eq_some hx', hsettled.eq_of_ne hne]

lemma inProgress_iff : t'.InProgress name ↔ t.InProgress name := by
  refine ⟨fun hprog => ?_,fun hprog => h.global?_of_ne hprog nofun⟩
  obtain ⟨x,x',hx,hr,-,hsettled⟩ := h.exists_global hprog
  cases hsettled with
  | same => exact hx.trans (congrArg some hr)
  | done | failed => cases hr

lemma failed_iff : t'.Failed name ↔ t.Failed name ∨ name ∈ l := by
  refine ⟨fun hfailed => ?_,?_⟩
  · obtain ⟨x,x',hx,hr,rfl,hsettled⟩ := h.exists_global hfailed
    cases hsettled with
    | same => exact .inl (hx.trans (congrArg some hr))
    | done => nomatch (Referent.const.inj hr).2
    | failed _ _ _ hl => exact .inr hl
  · rintro (hfailed | hl)
    · exact h.global?_of_ne hfailed nofun
    · exact h.failed name hl

lemma trans (h' : s0.Settles t' l' codes' t'') : s0.Settles t (l ++ l') (codes ++ codes') t'' where
  parents := h'.parents.trans h.parents
  current := h'.current.trans h.current
  introduces := h'.introduces.trans h.introduces
  constants := h'.constants.trans h.constants
  resultTypes := h'.resultTypes.trans h.resultTypes
  bindings b := by
    have hb := h.bindings b
    have hb' := h'.bindings b
    generalize t.scopes.bindings[b]? = x, t'.scopes.bindings[b]? = x', t''.scopes.bindings[b]? = x'' at hb hb'
    cases hb with
    | none => cases hb' with | none => exact .none
    | some hx => cases hb' with | some hx' => exact .some (hx.trans hx')
  failed name hname := by
    rcases mem_append.1 hname with hname | hname
    · exact h'.failed_iff.2 (.inl (h.failed name hname))
    · exact h'.failed name hname
  codes := by rw [h'.codes, h.codes, append_assoc]

lemma tracks (ht : s0.Tracks t) : s0.Tracks t' where
  names name := by
    have hname := ht.names name
    rw [h.find?]
    generalize s0.scopes.find? 0 name = k, hb : t.scopes.find? 0 name = b at hname
    cases hname with
    | none => exact .none
    | @some k b hmirrors =>
      obtain ⟨⟨r0,r,hr0,hr,hword⟩,hconst⟩ := hmirrors
      obtain ⟨x,hx,rfl⟩ := map_eq_some_iff.1 hr
      obtain ⟨x',hx',hsettled⟩ := h.exists_binding hx
      refine .some ⟨⟨r0,x'.referent,hr0,referent?_eq_some hx',?_⟩,h.constants ▸ hconst⟩
      rw [hsettled.word_eq, hword]
  stages name type stage hr := by
    obtain ⟨x,x',hx,hr,rfl,hsettled⟩ := h.exists_global hr
    cases hsettled with
    | same => exact ht.stages _ type stage (hx.trans (congrArg some hr))
    | done _ _ hv =>
      cases hr
      exact ⟨rfl,hv⟩
    | failed _ _ hv =>
      cases hr
      exact ⟨rfl,hv⟩

lemma bounded {n : Nat} (ht : Bounded n t) : Bounded n t' := by
  obtain ⟨open_,hmem,hlen⟩ := ht
  refine ⟨open_,fun b hr => hmem b ?_,hlen⟩
  obtain ⟨x',hx',hr⟩ := map_eq_some_iff.1 hr
  obtain ⟨x,hx,hsettled⟩ := h.exists_binding' hx'
  cases hsettled with
  | same => exact (referent?_eq_some hx).trans (congrArg some hr)
  | done | failed => cases hr

lemma reported (e : SemanticError) : s0.Settles t l (codes ++ [e.cause.code]) (t'.step (.reported e)) where
  parents := h.parents
  current := h.current
  introduces := h.introduces
  constants := h.constants
  resultTypes := h.resultTypes
  bindings := h.bindings
  failed := h.failed
  codes := by rw [codes_reported, h.codes, append_assoc]

end

end Settles

/-! ### One constant -/

/-- A constant of the module that was not evaluated yet. -/
structure Awaits (t : State) (b : BindingId) (x : Binding) : Prop where
  binding : t.scopes.bindings[b]? = some x
  scope : x.scope = 0
  referent : x.referent = .declaredConst
  found : t.scopes.find? 0 x.name = some b

namespace Awaits

section

variable (h : t.Awaits b x)
include h

lemma referent? : t.referent? b = some (.const none .pending) :=
  (referent?_eq_some h.binding).trans (congrArg some h.referent)

lemma binding_begun : (t.begun b).scopes.bindings[b]? = some { x with referent := .const none .inProgress } := by
  rw [begun, bindings_marked, if_pos rfl, h.binding, map_some, h.referent]
  rfl

lemma global?_begun (name : String) :
    (t.begun b).global? name = if name = x.name then some (.const none .inProgress) else t.global? name := by
  rw [State.global?, begun, find?_marked]
  split
  · next heq =>
    rw [heq, h.found]
    exact referent?_eq_some h.binding_begun
  · next hne =>
    rw [State.global?]
    cases ha : t.scopes.find? 0 name with
    | none => rfl
    | some a =>
      have hab : b ≠ a := by
        rintro rfl
        obtain ⟨⟨y,hy,-,rfl⟩,-⟩ := ScopeTree.find?_eq_some_iff.1 ha
        cases h.binding.symm.trans hy
        exact hne rfl
      exact referent?_marked_of_ne hab

lemma tracks_begun (ht : s0.Tracks t) : s0.Tracks (t.begun b) where
  names name := by
    have hname := ht.names name
    rw [begun, find?_marked]
    generalize s0.scopes.find? 0 name = k, hb : t.scopes.find? 0 name = a at hname
    cases hname with
    | none => exact .none
    | @some k a hmirrors =>
      obtain ⟨⟨r0,r,hr0,hr,hword⟩,hconst⟩ := hmirrors
      refine .some ⟨?_,hconst⟩
      by_cases hab : b = a
      · subst hab
        refine ⟨r0,_,hr0,referent?_marked_self hr,?_⟩
        rw [hword]
        cases r <;> rfl
      · exact ⟨r0,r,hr0,(referent?_marked_of_ne hab).trans hr,hword⟩
  stages name type stage hr := by
    rw [h.global?_begun] at hr
    split at hr
    · cases hr
      rfl
    · exact ht.stages name type stage hr

lemma settles (ht : s0.Settles (t.begun b) l codes t') {f : Referent → Referent}
    (hl : l ⊆ l') (hx : s0.Settled l' x { x with referent := f (.const none .inProgress) })
    (hf : ∀ name ∈ l', name ∈ l ∨ name = x.name ∧ f (.const none .inProgress) = .const (some .error) .failed) :
    s0.Settles t l' codes (t'.marked b f) := by
  have hself : t'.scopes.bindings[b]? = some { x with referent := .const none .inProgress } := by
    obtain ⟨x',hx',hsettled⟩ := ht.exists_binding h.binding_begun
    rw [hx', hsettled.eq_of_ne nofun]
  have hfind (name) : (t'.marked b f).scopes.find? 0 name = t.scopes.find? 0 name := by
    rw [find?_marked, ht.find?, begun, find?_marked]
  have hmarked : (t'.marked b f).referent? b = some (f (.const none .inProgress)) :=
    referent?_marked_self (referent?_eq_some hself)
  refine ⟨ht.parents,ht.current,ht.introduces,ht.constants,ht.resultTypes,fun a => ?_,fun name hname => ?_,ht.codes⟩
  · rw [bindings_marked]
    by_cases hab : b = a
    · subst hab
      rw [if_pos rfl, h.binding, hself]
      exact .some hx
    · have ha := ht.bindings a
      rw [begun, bindings_marked, if_neg hab] at ha
      rw [if_neg hab]
      generalize t.scopes.bindings[a]? = y, t'.scopes.bindings[a]? = y' at ha
      cases ha with
      | none => exact .none
      | some hy => exact .some (hy.mono hl)
  · rcases hf name hname with hname | ⟨rfl,hfailed⟩
    · have hold := ht.failed name hname
      obtain ⟨a,ha,hr⟩ := bind_eq_some_iff.1 hold
      have hab : b ≠ a := by
        rintro rfl
        cases (referent?_eq_some hself).symm.trans hr
      rw [Failed, global?_eq_some ((find?_marked ..).trans ha)]
      exact (referent?_marked_of_ne hab).trans hr
    · rw [Failed, global?_eq_some ((hfind _).trans h.found), hmarked, hfailed]

lemma abandoned (hv : s0.verdict x.name = none) (ht : s0.Settles (t.begun b) l codes t') :
    s0.Settles t (x.name :: l) codes (t'.marked b fun r => (r.setConstType .error).setConstStage .failed) := by
  refine h.settles ht (subset_cons_self _ _) (.failed h.scope h.referent hv (.head _)) fun name hname => ?_
  rcases mem_cons.1 hname with rfl | hname
  · exact .inr ⟨rfl,rfl⟩
  · exact .inl hname

lemma failed_begun : (t.begun b).Failed = t.Failed := by
  funext name
  rw [Failed, h.global?_begun, Failed]
  split
  · next heq =>
    rw [heq, State.global?_eq_some h.found, h.referent?]
    simp
  · rfl

end

end Awaits

end Lemmas

end State

end Opal
