import Mathlib.Data.List.Pairwise
import Opal.Proofs.Examination

/-!
# The names of a scope

The names of a scope are bound before any of its declarations is examined. A name that cannot be bound is reported on.
-/

namespace Opal

open Findings (Agrees)
open Option List

variable {b : BindingId} {c : ConstDecl} {d : Decl} {id : NodeId}

/-! ## Binding the names of a scope -/

def State.introduced (s : State) (scope : ScopeId) (d : Decl) : State :=
  (s.bound ⟨d.name,scope,d.nameSpan,d.referent⟩).step (.introduced d s.scopes.bindings.size)

lemma run_declareOne (s : State) (scope : ScopeId) (d : Decl) :
    (∃ e, ((declareOne scope d).run s).2 = s.step (.reported e)) ∨ ((declareOne scope d).run s).2 = s.introduced scope d := by
  rw [declareOne, run_reported, Check.run_bind]
  rcases run_declareIn s scope d.name d.nameSpan d.referent with ⟨e,hrun⟩ | hrun
  · rw [hrun]
    exact .inl ⟨e,rfl⟩
  · rw [hrun]
    exact .inr rfl

lemma resultTypes_declareNames (scope : ScopeId) : ∀ (D : List Decl) (s : State),
    ((D.forM (declareOne scope)).run s).2.resultTypes = s.resultTypes
  | [], _ => rfl
  | d :: D, s => by
    have hrest := resultTypes_declareNames scope D ((declareOne scope d).run s).2
    refine hrest.trans ?_
    rcases run_declareOne s scope d with ⟨e,hrun⟩ | hrun
    · rw [hrun]
      rfl
    · rw [hrun]
      rfl

lemma Decl.isInitial_referent (d : Decl) : d.referent.IsInitial := by
  cases d with
  | var d => exact .var d.mutable
  | const => exact .const
  | func => exact .func

/-- What is true after the names of `D` were bound. -/
structure Declared (D : List Decl) (s s1 : State) : Prop where
  steps : Steps State.Allows s s1
  typeOf : s1.typeOf = s.typeOf
  refersTo : s1.refersTo = s.refersTo
  valueOf : s1.valueOf = s.valueOf
  current : s1.scopes.current = s.scopes.current
  parents : s1.scopes.parents = s.scopes.parents
  resultTypes : s1.resultTypes = s.resultTypes
  errors : s.Failing → s1.Failing
  referents : ∀ b r, s.referent? b = some r → s1.referent? b = some r
  constants : ∀ b c, s.constant? b = some c → s1.constant? b = some c
  introduces : ∀ id : NodeId, id ∉ D.map Decl.id → s1.introduces[id]? = s.introduces[id]?
  /-- A new binding is introduced by a declaration, -/
  newReferents : ∀ b r, s.referent? b = none → s1.referent? b = some r → ∃ d ∈ D, s1.introduces[d.id]? = some b ∧ r = d.referent
  newConstants : ∀ b c, s1.constant? b = some c → s.constant? b = some c ∨ Decl.const c ∈ D ∧ s1.introduces[c.id]? = some b
  /-- what an accepted declaration introduces is new, -/
  accepted : ∀ d ∈ D, ∀ b, s1.introduces[d.id]? = some b → s.referent? b = none ∧ s1.referent? b = some d.referent ∧
      ∀ c, d = .const c → s1.constant? b = some c
  /-- no two declarations introduce the same, -/
  injective : ∀ d ∈ D, ∀ d' ∈ D, ∀ b, s1.introduces[d.id]? = some b → s1.introduces[d'.id]? = some b → d.id = d'.id
  /-- and one that introduces nothing is reported on. -/
  refused : ∀ d ∈ D, s1.introduces[d.id]? = none → s1.Failing

namespace Declared

variable {s s1 s2 : State} {D D' : List Decl}

lemma nil (s : State) : Declared [] s s where
  steps := .refl
  typeOf := rfl
  refersTo := rfl
  valueOf := rfl
  current := rfl
  parents := rfl
  resultTypes := rfl
  errors := id
  referents _ _ h := h
  constants _ _ h := h
  introduces _ _ := rfl
  newReferents b r hnone hr := by
    rw [hnone] at hr
    cases hr
  newConstants _ _ h := .inl h
  accepted := by simp
  injective := by simp
  refused := by simp

lemma append (h : Declared D s s1) (h' : Declared D' s1 s2)
    (hdisj : (D.map Decl.id).Disjoint (D'.map Decl.id)) : Declared (D ++ D') s s2 := by
  have hleft {d : Decl} (hd : d ∈ D) : s2.introduces[d.id]? = s1.introduces[d.id]? :=
    h'.introduces d.id fun hmem => hdisj (mem_map_of_mem hd) hmem
  refine { steps := h.steps.trans h'.steps, typeOf := h'.typeOf.trans h.typeOf, refersTo := h'.refersTo.trans h.refersTo,
           valueOf := h'.valueOf.trans h.valueOf, current := h'.current.trans h.current,
           parents := h'.parents.trans h.parents, resultTypes := h'.resultTypes.trans h.resultTypes,
           errors := h'.errors ∘ h.errors,
           referents := fun b r hr => h'.referents b r (h.referents b r hr),
           constants := fun b c hc => h'.constants b c (h.constants b c hc),
           introduces := ?_, newReferents := ?_, newConstants := ?_, accepted := ?_,
           injective := ?_, refused := ?_ }
  · intro id hid
    rw [map_append, mem_append, not_or] at hid
    rw [h'.introduces id hid.2, h.introduces id hid.1]
  · intro b r hnone hr
    cases hb : s1.referent? b with
    | none =>
      obtain ⟨d,hd,hid,hr⟩ := h'.newReferents b r hb hr
      exact ⟨d,mem_append_right _ hd,hid,hr⟩
    | some r' =>
      obtain rfl := mem_unique (h'.referents b r' hb) hr
      obtain ⟨d,hd,hid,hr⟩ := h.newReferents b r' hnone hb
      exact ⟨d,mem_append_left _ hd,(hleft hd).trans hid,hr⟩
  · intro b c hc
    rcases h'.newConstants b c hc with hc | ⟨hmem,hid⟩
    · refine (h.newConstants b c hc).imp_right fun ⟨hmem,hid⟩ => ?_
      exact ⟨mem_append_left _ hmem,(hleft hmem).trans hid⟩
    · exact .inr ⟨mem_append_right _ hmem,hid⟩
  · intro d hd b hb
    rcases mem_append.1 hd with hd | hd
    · obtain ⟨hnone,hr,hconst⟩ := h.accepted d hd b ((hleft hd).symm.trans hb)
      exact ⟨hnone,h'.referents b _ hr,fun c hc => h'.constants b c (hconst c hc)⟩
    · obtain ⟨hnone,hr,hconst⟩ := h'.accepted d hd b hb
      refine ⟨?_,hr,hconst⟩
      cases hold : s.referent? b with
      | none => rfl
      | some r => cases hnone.symm.trans (h.referents b r hold)
  · -- What the first declarations introduce is not new to the second ones.
    have hcross {d d' : Decl} (hd : d ∈ D) (hd' : d' ∈ D') {b : BindingId}
        (hb : s2.introduces[d.id]? = some b) (hb' : s2.introduces[d'.id]? = some b) : False := by
      obtain ⟨-,hr,-⟩ := h.accepted d hd b ((hleft hd).symm.trans hb)
      obtain ⟨hnone,-⟩ := h'.accepted d' hd' b hb'
      cases hnone.symm.trans hr
    intro d hd d' hd' b hb hb'
    rcases mem_append.1 hd with hd | hd <;> rcases mem_append.1 hd' with hd' | hd'
    · exact h.injective d hd d' hd' b ((hleft hd).symm.trans hb) ((hleft hd').symm.trans hb')
    · exact (hcross hd hd' hb hb').elim
    · exact (hcross hd' hd hb' hb).elim
    · exact h'.injective d hd d' hd' b hb hb'
  · intro d hd hnone
    rcases mem_append.1 hd with hd | hd
    · exact h'.errors (h.refused d hd ((hleft hd).symm.trans hnone))
    · exact h'.refused d hd hnone

/-- A declaration that is refused changes nothing but the errors, and one that is accepted introduces a new
binding. -/
theorem single (scope : ScopeId) (hnew : s.introduces[d.id]? = none)
    (hconst : ∀ b c, s.constant? b = some c → s.referent? b ≠ none) : Declared [d] s ((declareOne scope d).run s).2 := by
  rcases run_declareOne s scope d with ⟨e,hrun⟩ | hrun
  · rw [hrun]
    refine { nil s with steps := .single trivial, errors := fun _ => Array.push_ne_empty, introduces := fun _ _ => rfl,
                        newReferents := ?_, newConstants := fun _ _ h => .inl h, accepted := ?_,
                        injective := ?_, refused := fun _ _ _ => Array.push_ne_empty }
    · intro b r hnone hr
      cases hnone.symm.trans hr
    · intro d' hd' b hb
      rw [mem_singleton.1 hd'] at hb
      cases hnew.symm.trans hb
    · intro d' hd' d'' hd'' b _ _
      rw [mem_singleton.1 hd', mem_singleton.1 hd'']
  · rw [hrun]
    have hintro (id : NodeId) : (s.introduced scope d).introduces[id]? =
        if d.id = id then some s.scopes.bindings.size else s.introduces[id]? :=
      Table.getElem?_insert ..
    have hself : (s.introduced scope d).introduces[d.id]? = some s.scopes.bindings.size := by
      rw [hintro, if_pos rfl]
    have href (b : BindingId) : (s.introduced scope d).referent? b =
        if b = s.scopes.bindings.size then some d.referent else s.referent? b :=
      referent?_bound ..
    have hadd (c : ConstDecl) (hd : d = .const c) (b : BindingId) : (s.introduced scope d).constant? b =
          if s.scopes.bindings.size = b then some c else s.constant? b := by
      subst hd
      exact Table.getElem?_insert ..
    have hother (hd : ∀ c, d ≠ .const c) (b : BindingId) : (s.introduced scope d).constant? b = s.constant? b := by
      cases d with
      | const c => exact absurd rfl (hd c)
      | var | func => rfl
    refine { steps := .step _ (.single ⟨rfl,d.isInitial_referent⟩) ⟨hnew,scope,rfl⟩,
             typeOf := rfl, refersTo := rfl, valueOf := rfl, current := rfl, parents := rfl,
             resultTypes := rfl, errors := fun h => h,
             referents := fun b r hr => referent?_bound_of_some hr, constants := ?_,
             introduces := ?_, newReferents := ?_, newConstants := ?_, accepted := ?_,
             injective := ?_, refused := ?_ }
    · intro b c hc
      have hne : s.scopes.bindings.size ≠ b := by
        rintro rfl
        exact hconst _ c hc (referent?_size s)
      cases d with
      | const c' => rw [hadd c' rfl, if_neg hne, hc]
      | var | func => exact hc
    · intro id hid
      rw [hintro, if_neg]
      rintro rfl
      exact hid (mem_singleton_self _)
    · intro b r hnone hr
      rw [href] at hr
      split at hr
      · next hb => exact ⟨d,mem_singleton_self d,hb ▸ hself,(Option.some.inj hr).symm⟩
      · cases hnone.symm.trans hr
    · intro b c hc
      by_cases hd : ∃ c', d = .const c'
      · obtain ⟨c',rfl⟩ := hd
        rw [hadd c' rfl] at hc
        split at hc
        · next hb =>
          obtain rfl := Option.some.inj hc
          exact .inr ⟨mem_singleton_self _,hb ▸ hself⟩
        · exact .inl hc
      · rw [hother fun c' h => hd ⟨c',h⟩] at hc
        exact .inl hc
    · intro d' hd' b hb
      obtain rfl := mem_singleton.1 hd'
      obtain rfl := mem_unique hself hb
      refine ⟨referent?_size s,by rw [href, if_pos rfl],fun c hc => ?_⟩
      rw [hadd c hc, if_pos rfl]
    · intro d' hd' d'' hd'' b _ _
      rw [mem_singleton.1 hd', mem_singleton.1 hd'']
    · intro d' hd' hnone
      rw [mem_singleton.1 hd'] at hnone
      cases hself.symm.trans hnone

lemma bound (h : Declared D s s1) (hconst : ∀ b c, s.constant? b = some c → s.referent? b ≠ none)
    (b : BindingId) (c : ConstDecl) (hc : s1.constant? b = some c) : s1.referent? b ≠ none := by
  rcases h.newConstants b c hc with hold | ⟨hmem,hb⟩
  · obtain ⟨r,hr⟩ := ne_none_iff_exists'.1 (hconst b c hold)
    rw [h.referents b r hr]
    exact some_ne_none r
  · obtain ⟨-,hr,-⟩ := h.accepted _ hmem b hb
    rw [hr]
    exact some_ne_none _

end Declared

lemma declare_declared (scope : ScopeId) : ∀ (D : List Decl) (s : State),
    (D.map Decl.id).Nodup → (∀ d ∈ D, s.introduces[d.id]? = none) → (∀ b c, s.constant? b = some c → s.referent? b ≠ none) →
        Declared D s ((D.forM (declareOne scope)).run s).2
  | [], s, _, _, _ => .nil s
  | d :: D, s, hnodup, hnew, hconst => by
    obtain ⟨hd,hnodup⟩ := nodup_cons.1 hnodup
    have hone := Declared.single scope (hnew d mem_cons_self) hconst
    refine hone.append (declare_declared scope D _ hnodup (fun d' hd' => ?_) (hone.bound hconst)) ?_
    · rw [hone.introduces]
      · exact hnew d' (mem_cons_of_mem _ hd')
      · intro hmem
        exact hd (mem_singleton.1 hmem ▸ mem_map_of_mem hd')
    · exact fun id hid hid' => hd (mem_singleton.1 hid ▸ hid')

/-! ## The state after the names were bound -/

section Regions

variable {α : Type} {nodes : α → List Node} {l : List α}

lemma eq_of_id_mem (h : ((l.flatMap nodes).map Node.id).Nodup) {a a' : α} (ha : a ∈ l) (ha' : a' ∈ l)
    (hid : id ∈ (nodes a).map Node.id) (hid' : id ∈ (nodes a').map Node.id) : a = a' := by
  by_contra hne
  rw [map_flatMap, nodup_flatMap] at h
  have hsymm : Std.Symm (Function.onFun List.Disjoint fun a => (nodes a).map Node.id) :=
    ⟨fun _ _ hd _ h h' => hd h' h⟩
  exact h.2.forall ha ha' hne hid hid'

lemma nodup_of_mem (h : ((l.flatMap nodes).map Node.id).Nodup) {a : α} (ha : a ∈ l) : ((nodes a).map Node.id).Nodup := by
  rw [map_flatMap, nodup_flatMap] at h
  exact h.1 a ha

end Regions

lemma Decl.self_mem_nodes (d : Decl) : Node.decl d ∈ d.nodes := by
  cases d with
  | var d | const d | func d => simp [d.nodes_eq]

lemma Decl.id_mem_ids (d : Decl) : d.id ∈ d.nodes.map Node.id :=
  id_mem_of_decl d.self_mem_nodes

lemma Decl.wellFormed_referent (d : Decl) (failing : Prop) : d.referent.WellFormed failing := by
  cases d with
  | var | const => exact rfl
  | func => exact .inl ⟨rfl,rfl⟩

namespace Declared

variable {s s1 : State} {D : List Decl}

lemma agrees (h : Declared D s s1) {M : List Node}
    (hdisj : ∀ id ∈ M.map Node.id, id ∉ D.map Decl.id) : Agrees M s.toFindings s1.toFindings where
  typeOf _ _ := by rw [h.typeOf]
  refersTo _ _ := by rw [h.refersTo]
  valueOf _ _ := by rw [h.valueOf]
  introduces id hid := h.introduces id (hdisj id hid)
  moves b r hr := ⟨r,h.referents b r hr,.refl r⟩
  errors := h.errors

lemma pending (h : Declared D s s1) (hc : Decl.const c ∈ D)
    (hb : s1.introduces[c.id]? = some b) : s1.referent? b = some (.const none .pending) :=
  (h.accepted _ hc b hb).2.1

lemma old_apart (hready : Ready (D.flatMap Decl.nodes) s) (hcalm : Calm s)
    {d : ConstDecl} (hd : s.constant? b = some d) : ((D.flatMap Decl.nodes).map Node.id).Disjoint d.ids := by
  obtain ⟨-,type,stage,hr⟩ := hready.sound.declared b d hd
  refine hready.apart b d type stage hd hr ?_
  rintro rfl
  exact hcalm.idle b type hr

lemma id_mem (hd : d ∈ D) (hid : id ∈ d.nodes.map Node.id) : id ∈ (D.flatMap Decl.nodes).map Node.id := by
  rw [map_flatMap]
  exact mem_flatMap.2 ⟨d,hd,hid⟩

lemma decl_id_mem (hid : id ∈ D.map Decl.id) : id ∈ (D.flatMap Decl.nodes).map Node.id := by
  obtain ⟨d,hd,rfl⟩ := mem_map.1 hid
  exact id_mem hd d.id_mem_ids

lemma part_notMem (hnodup : ((D.flatMap Decl.nodes).map Node.id).Nodup)
    (hc : Decl.const c ∈ D) (hid : id ∈ c.parts.map Node.id) : id ∉ D.map Decl.id := by
  intro hmem
  obtain ⟨d,hd,rfl⟩ := mem_map.1 hmem
  have hpart : d.id ∈ (Decl.const c).nodes.map Node.id := by
    rw [Decl.nodes, c.nodes_eq, map_append]
    exact mem_append_left _ hid
  obtain rfl := eq_of_id_mem hnodup hd hc d.id_mem_ids hpart
  have hself := nodup_of_mem hnodup hc
  rw [Decl.nodes, c.nodes_eq, map_append] at hself
  exact disjoint_of_nodup_append hself hid (mem_singleton_self _)

lemma sound (h : Declared D s s1) (hready : Ready (D.flatMap Decl.nodes) s) (hcalm : Calm s) : Sound s1 where
  wellFormed b r hr := by
    cases hb : s.referent? b with
    | none =>
      obtain ⟨d,-,-,rfl⟩ := h.newReferents b r hb hr
      exact d.wellFormed_referent _
    | some r' =>
      obtain rfl := mem_unique (h.referents b r' hb) hr
      exact (hready.sound.wellFormed b r' hb).mono h.errors
  constant b type stage hr := by
    cases hb : s.referent? b with
    | none =>
      obtain ⟨d,hd,hid,heq⟩ := h.newReferents b _ hb hr
      cases d with
      | const c => exact ⟨c,(h.accepted _ hd b hid).2.2 c rfl⟩
      | var | func => cases heq
    | some r' =>
      obtain rfl := mem_unique (h.referents b r' hb) hr
      obtain ⟨d,hd⟩ := hready.sound.constant b type stage hb
      exact ⟨d,h.constants b d hd⟩
  declared b d hd := by
    rcases h.newConstants b d hd with hold | ⟨hmem,hid⟩
    · obtain ⟨hid,type,stage,hr⟩ := hready.sound.declared b d hold
      refine ⟨?_,type,stage,h.referents b _ hr⟩
      rw [h.introduces, hid]
      intro hmem
      cases (hready.undeclared _ (decl_id_mem hmem)).symm.trans hid
    · exact ⟨hid,none,.pending,h.pending hmem hid⟩
  nodup b d hd := by
    rcases h.newConstants b d hd with hold | ⟨hmem,-⟩
    · exact hready.sound.nodup b d hold
    · exact nodup_of_mem hready.nodup hmem
  apart b b' d d' hd hd' hne := by
    have hnodes (d : ConstDecl) : (Decl.const d).nodes.map Node.id = d.ids := by
      rw [Decl.nodes]
    rcases h.newConstants b d hd with hold | ⟨hmem,hid⟩ <;>
      rcases h.newConstants b' d' hd' with hold' | ⟨hmem',hid'⟩
    · exact hready.sound.apart b b' d d' hold hold' hne
    · exact fun id h h' => old_apart hready hcalm hold (id_mem hmem' (hnodes d' ▸ h')) h
    · exact fun id h h' => old_apart hready hcalm hold' (id_mem hmem (hnodes d ▸ h)) h'
    · intro id h h'
      obtain ⟨⟩ := eq_of_id_mem hready.nodup hmem hmem' (hnodes d ▸ h) (hnodes d' ▸ h')
      exact hne (mem_unique hid hid')
  stages b d type stage hd hr := by
    rcases h.newConstants b d hd with hold | ⟨hmem,hid⟩
    · obtain ⟨-,type',stage',hr'⟩ := hready.sound.declared b d hold
      obtain ⟨⟩ := (h.referents b _ hr').symm.trans hr
      refine (hready.sound.stages b d type stage hold hr').agrees (h.agrees fun id hid hmem => ?_)
      exact old_apart hready hcalm hold (decl_id_mem hmem) hid
    · obtain ⟨⟩ := (h.pending hmem hid).symm.trans hr
      intro id hpart
      have hin : id ∈ (D.flatMap Decl.nodes).map Node.id := by
        refine id_mem hmem ?_
        rw [Decl.nodes, d.nodes_eq, map_append]
        exact mem_append_left _ hpart
      rw [h.typeOf, h.introduces id (part_notMem hready.nodup hmem hpart)]
      exact ⟨hready.untyped id hin,hready.undeclared id hin⟩
  results := by
    rw [h.resultTypes]
    exact hready.sound.results

/-- Nodes that are neither declarations nor belong to a constant that was accepted stay unexamined. -/
theorem ready {R Z : List Node} (h : Declared D s s1) (hsound : Sound s1) (hready : Ready (R ++ Z) s)
    (hdecl : ∀ d ∈ D, Node.decl d ∈ Z)
    (hconst : ∀ c b, Decl.const c ∈ D → s1.introduces[c.id]? = some b → c.nodes ⊆ Z) : Ready R s1 where
  sound := hsound
  nodup := hready.left.nodup
  untyped id hid := by
    rw [h.typeOf]
    exact hready.left.untyped id hid
  undeclared id hid := by
    rw [h.introduces]
    · exact hready.left.undeclared id hid
    · intro hmem
      obtain ⟨d,hd,rfl⟩ := mem_map.1 hmem
      exact hready.disjoint hid (id_mem_of_decl (hdecl d hd))
  apart b d type stage hd hr hstage := by
    rcases h.newConstants b d hd with hold | ⟨hmem,hid⟩
    · obtain ⟨-,type',stage',hr'⟩ := hready.sound.declared b d hold
      obtain ⟨⟩ := (h.referents b _ hr').symm.trans hr
      exact hready.left.apart b d type stage hold hr' hstage
    · exact fun id hR hd => hready.disjoint hR (map_subset _ (hconst d b hmem hid) hd)

end Declared

end Opal
