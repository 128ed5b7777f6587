import Opal.Proofs.Journal
import Opal.Proofs.Precedence

/-!
# How the state of a check evolves

The examination of some nodes adds facts about these nodes, evaluates constants, binds further names, and adds errors. All else
stays, and every state is sound.
-/

namespace Opal

open List Option

variable {s s' s1 : State} {id : NodeId} {N : List Node} {own : List BindingId}

variable {b : BindingId} {d : ConstDecl} {failing failing' : Prop} {r r' : Referent}

/-- Something is wrong with the module. -/
def Findings.Failing (f : Findings) : Prop :=
  f.errors ≠ #[]

namespace Referent

/-- What is known of a binding is consistent with the stage of its examination. What failed was reported,
or is known to be. -/
def WellFormed (failing : Prop) : Referent → Prop
  | .var type _ .initialized => ∃ t, type = some t ∧ t.isValue = true
  | .var type _ .failed => failing ∧ type ≠ none
  | .var type _ _ => type = none
  | .const type (.done v) => type = some v.type
  | .const type .failed => failing ∧ type ≠ none
  | .const type _ => type = none
  | .func type params =>
    type = .error ∧ params = [] ∨
      ∃ ret, type = .function (params.map (·.type)) ret ∧ type.isValue = true

/-- The examination of a binding has come to an end. -/
def Settled (failing : Prop) : Referent → Prop
  | .var _ _ stage => stage = .initialized ∨ stage = .failed
  | .const _ stage => stage ≠ .pending ∧ stage ≠ .inProgress
  | .func type _ => type = .error → failing

def isConst : Referent → Bool
  | .const .. => true
  | _ => false

/-- A constant that was evaluated, with success or not. -/
def IsEvaluated (r : Referent) : Prop :=
  ∃ type stage, r = .const (some type) stage ∧ stage ≠ .pending ∧ stage ≠ .inProgress

lemma Moves.isConst_eq (h : r.Moves r') : r'.isConst = r.isConst := by
  cases h <;> rfl

lemma WellFormed.mono (hf : failing → failing') (h : r.WellFormed failing) : r.WellFormed failing' := by
  cases r with
  | var type mutable stage =>
    cases stage with
    | failed => exact ⟨hf h.1,h.2⟩
    | declared | initializing | initialized => exact h
  | const type stage =>
    cases stage with
    | failed => exact ⟨hf h.1,h.2⟩
    | pending | inProgress | done => exact h
  | func type params => exact h

lemma Settled.mono (hf : failing → failing') (h : r.Settled failing) : r.Settled failing' := by
  cases r with
  | var | const => exact h
  | func type params => exact fun ht => hf (h ht)

/-- What has come to an end does not change any more in a way that matters. -/
theorem Settled.moves (h : r.Settled failing)
    (hwf : r.WellFormed failing) (hm : r.Moves r') (hf : failing → failing') : r'.Settled failing' := by
  cases hm with
  | refl => exact h.mono hf
  | var mutable stage type stage' =>
    rcases h with rfl | rfl
    · obtain ⟨t,ht,-⟩ := hwf
      cases ht
    · exact absurd rfl hwf.2
  | const stage type stage' hnot =>
    cases stage with
    | pending => exact absurd rfl h.1
    | inProgress => exact absurd rfl h.2
    | done v => exact absurd rfl (hnot v)
    | failed => exact absurd rfl hwf.2
  | func type params => exact fun _ => hf (h rfl)

lemma IsEvaluated.eq_of_moves (h : r.IsEvaluated) (hm : r.Moves r') : r' = r := by
  obtain ⟨type,stage,rfl,-,-⟩ := h
  cases hm
  rfl

lemma not_isEvaluated_pending : ¬ (Referent.const none .pending).IsEvaluated := by
  rintro ⟨type,stage,h,-,-⟩
  cases h

end Referent

/-! ## Sound states -/

/-- The declaration of the constant that a binding is. -/
def State.constant? (s : State) (b : BindingId) : Option ConstDecl :=
  s.constants[b]?

/-- What is known of the declaration of a constant, by the stage of its evaluation. -/
def Findings.StageSound (f : Findings) (d : ConstDecl) : ConstStage → Prop
  | .pending => ∀ id ∈ d.parts.map Node.id, f.typeOf[id]? = none ∧ f.introduces[id]? = none
  | .inProgress => True
  | .done v => (f.ObeysOn d.parts ∧ f.InSequence d.parts) ∧ f.Solved d v
  | .failed => f.ObeysOn d.parts ∧ f.InSequence d.parts

lemma ConstDecl.parts_subset (d : ConstDecl) : d.parts ⊆ d.nodes := by
  rw [d.nodes_eq]
  exact subset_append_left _ _

lemma Findings.StageSound.agrees {f f' : Findings} {stage : ConstStage}
    (h : f.StageSound d stage) (ha : Findings.Agrees d.nodes f f') : f'.StageSound d stage := by
  have hparts := ha.mono d.parts_subset
  cases stage with
  | pending =>
    intro id hid
    rw [hparts.typeOf id hid, hparts.introduces id hid]
    exact h id hid
  | inProgress => trivial
  | done v => exact ⟨⟨h.1.1.agrees hparts,h.1.2.agrees hparts⟩,h.2.agrees ha⟩
  | failed => exact ⟨h.1.agrees hparts,h.2.agrees hparts⟩

/-- What is true of every state of a check. -/
structure Sound (s : State) : Prop where
  wellFormed : ∀ b r, s.referent? b = some r → r.WellFormed s.Failing
  /-- Every constant has a declaration, -/
  constant : ∀ b type stage, s.referent? b = some (.const type stage) → ∃ d, s.constant? b = some d
  /-- and the declaration introduces the constant. -/
  declared : ∀ b d, s.constant? b = some d →
    s.introduces[d.id]? = some b ∧ ∃ type stage, s.referent? b = some (.const type stage)
  nodup : ∀ b d, s.constant? b = some d → d.ids.Nodup
  apart : ∀ b b' d d', s.constant? b = some d → s.constant? b' = some d' → b ≠ b' →
    d.ids.Disjoint d'.ids
  stages : ∀ b d type stage, s.constant? b = some d → s.referent? b = some (.const type stage) →
    s.StageSound d stage
  results : ∀ t ∈ s.resultTypes, t.isResult = true

/-- A change keeps a state sound if it leaves the evaluated constants alone and what it binds is
consistent. -/
theorem Sound.update (h : Sound s) (hconst : ∀ b, s'.constant? b = s.constant? b)
    (hintro : ∀ (id : NodeId) b, s.introduces[id]? = some b → s'.introduces[id]? = some b)
    (hresults : ∀ t ∈ s'.resultTypes, t.isResult = true) (hfail : s.Failing → s'.Failing)
    (hagree : ∀ b d type stage, s.constant? b = some d → s.referent? b = some (.const type stage) → stage ≠ .inProgress →
        Findings.Agrees d.nodes s.toFindings s'.toFindings) (hkeep : ∀ b type stage, s.referent? b = some (.const type stage) →
      ∃ type' stage', s'.referent? b = some (.const type' stage'))
    (hnew : ∀ b r, s'.referent? b = some r → s.referent? b = some r ∨ r.WellFormed s'.Failing ∧
      ∀ type stage, r = .const type stage → ∃ d, s.constant? b = some d ∧ s'.StageSound d stage) : Sound s' where
  wellFormed b r hr := by
    rcases hnew b r hr with hold | ⟨hwf,-⟩
    · exact (h.wellFormed b r hold).mono hfail
    · exact hwf
  constant b type stage hr := by
    rw [hconst]
    rcases hnew b _ hr with hold | ⟨-,hstage⟩
    · exact h.constant b type stage hold
    · obtain ⟨d,hd,-⟩ := hstage type stage rfl
      exact ⟨d,hd⟩
  declared b d hd := by
    rw [hconst] at hd
    obtain ⟨hid,type,stage,hr⟩ := h.declared b d hd
    exact ⟨hintro _ _ hid,hkeep b type stage hr⟩
  nodup b d hd := h.nodup b d (hconst b ▸ hd)
  apart b b' d d' hd hd' := h.apart b b' d d' (hconst b ▸ hd) (hconst b' ▸ hd')
  stages b d type stage hd hr := by
    rw [hconst] at hd
    rcases hnew b _ hr with hold | ⟨-,hstage⟩
    · by_cases hp : stage = .inProgress
      · subst hp; trivial
      · exact (h.stages b d type stage hd hold).agrees (hagree b d type stage hd hold hp)
    · obtain ⟨d',hd',hs⟩ := hstage type stage rfl
      rw [hd] at hd'
      exact Option.some.inj hd' ▸ hs
  results := hresults

/-- No constant is being evaluated, and every function has its signature unless something is wrong. -/
structure Calm (s : State) : Prop where
  idle : ∀ b type, s.referent? b ≠ some (.const type .inProgress)
  signatures : ∀ b params, s.referent? b = some (.func .error params) → s.Failing

/-- Nothing is known of the nodes of `N`, and no constant that has been or can be evaluated has a part among
them. -/
structure Ready (N : List Node) (s : State) : Prop where
  sound : Sound s
  nodup : (N.map Node.id).Nodup
  untyped : ∀ id ∈ N.map Node.id, s.typeOf[id]? = none
  undeclared : ∀ id ∈ N.map Node.id, s.introduces[id]? = none
  apart : ∀ b d type stage, s.constant? b = some d →
    s.referent? b = some (.const type stage) → stage ≠ .inProgress → (N.map Node.id).Disjoint d.ids

/-! ## What may change -/

/-- The constant with declaration `d` is evaluated on the way from `s` to `s'`. -/
def Evaluated (s s' : State) (d : ConstDecl) : Prop :=
  ∃ b r, s.constant? b = some d ∧ s.referent? b = some (.const none .pending) ∧
    s'.referent? b = some r ∧ r.IsEvaluated

/-- The number belongs to a constant that is evaluated on the way from `s` to `s'`. -/
def Settles (s s' : State) (id : NodeId) : Prop :=
  ∃ d, Evaluated s s' d ∧ id ∈ d.ids

/-- What the examination of the nodes of `N` may change, where the declarations of the bindings `own` are
examined. -/
structure Evolves (N : List Node) (own : List BindingId) (s s' : State) : Prop where
  referents : ∀ b r, s.referent? b = some r → ∃ r', s'.referent? b = some r' ∧
    (r' = r ∨ r = .const none .pending ∧ r'.IsEvaluated ∨
      b ∈ own ∧ r.isConst = false ∧ r.Moves r')
  constants : ∀ b d, s.constant? b = some d → s'.constant? b = some d
  /-- A further constant is declared among the nodes that are examined. -/
  newConstants : ∀ b d, s'.constant? b = some d → s.constant? b = some d ∨
    s.referent? b = none ∧ (d.nodes ⊆ N ∨ ∃ d0, Evaluated s s' d0 ∧ d.nodes ⊆ d0.nodes)
  typeOf : ∀ id : NodeId, id ∉ N.map Node.id → ¬ Settles s s' id →
    s'.typeOf[id]? = s.typeOf[id]?
  refersTo : ∀ id : NodeId, id ∉ N.map Node.id → ¬ Settles s s' id →
    s'.refersTo[id]? = s.refersTo[id]?
  valueOf : ∀ id : NodeId, id ∉ N.map Node.id → ¬ Settles s s' id →
    s'.valueOf[id]? = s.valueOf[id]?
  introduces : ∀ id : NodeId, id ∉ N.map Node.id → ¬ Settles s s' id →
    s'.introduces[id]? = s.introduces[id]?
  current : s'.scopes.current = s.scopes.current
  parents : ∀ (i : Nat) p, s.scopes.parents[i]? = some p → s'.scopes.parents[i]? = some p
  resultTypes : s'.resultTypes = s.resultTypes
  errors : s.Failing → s'.Failing

namespace Evolves

variable {N N' M : List Node} {own own' : List BindingId} {s s1 s2 : State}

lemma refl (N : List Node) (own : List BindingId) (s : State) : Evolves N own s s where
  referents _ r hr := ⟨r,hr,.inl rfl⟩
  constants _ _ hd := hd
  newConstants _ _ hd := .inl hd
  typeOf _ _ _ := rfl
  refersTo _ _ _ := rfl
  valueOf _ _ _ := rfl
  introduces _ _ _ := rfl
  current := rfl
  parents _ _ hp := hp
  resultTypes := rfl
  errors := id

section

variable (h : Evolves N own s s1)
include h

lemma mono (hN : N ⊆ N') (hown : own ⊆ own') : Evolves N' own' s s1 :=
  have hids {id : NodeId} (hid : id ∉ N'.map Node.id) : id ∉ N.map Node.id :=
    fun hmem => hid (map_subset _ hN hmem)
  { h with
    referents := fun b r hr => by
      obtain ⟨r',hr',hcase⟩ := h.referents b r hr
      exact ⟨r',hr',hcase.imp_right (.imp_right (.imp_left (hown ·)))⟩
    newConstants := fun b d hd =>
      (h.newConstants b d hd).imp_right
        (.imp_right (.imp_left fun hsub => List.Subset.trans hsub hN))
    typeOf := fun id hid => h.typeOf id (hids hid)
    refersTo := fun id hid => h.refersTo id (hids hid)
    valueOf := fun id hid => h.valueOf id (hids hid)
    introduces := fun id hid => h.introduces id (hids hid) }

lemma referent?_eq_none (hb : s1.referent? b = none) : s.referent? b = none := by
  cases hr : s.referent? b with
  | none => rfl
  | some r =>
    obtain ⟨r',hr',-⟩ := h.referents b r hr
    rw [hb] at hr'
    cases hr'

lemma moves (hr : s.referent? b = some r) : ∃ r', s1.referent? b = some r' ∧ r.Moves r' := by
  obtain ⟨r',hr',rfl | ⟨rfl,htype,stage,rfl,-,-⟩ | ⟨-,-,hm⟩⟩ := h.referents b r hr
  · exact ⟨_,hr',.refl _⟩
  · exact ⟨_,hr',.const _ _ _ (by simp)⟩
  · exact ⟨r',hr',hm⟩

lemma evaluated (hr : s.referent? b = some r) (hev : r.IsEvaluated) : s1.referent? b = some r := by
  obtain ⟨r',hr',hm⟩ := h.moves hr
  rw [hr', hev.eq_of_moves hm]

end

lemma pending_before (hs : Sound s) (h : Evolves N own s s1)
    (hd : s.constant? b = some d) (hpend : s1.referent? b = some (.const none .pending)) :
    s.referent? b = some (.const none .pending) := by
  obtain ⟨-,type,stage,hb⟩ := hs.declared b d hd
  obtain ⟨r',hr',hcase⟩ := h.referents b _ hb
  obtain rfl := mem_unique hr' hpend
  rcases hcase with heq | ⟨-,hev⟩ | ⟨-,hnot,-⟩
  · exact heq ▸ hb
  · exact absurd hev Referent.not_isEvaluated_pending
  · cases hnot

lemma evaluated_left (h' : Evolves N own s1 s2) (hev : Evaluated s s1 d) : Evaluated s s2 d := by
  obtain ⟨b,r,hd,hpend,hr,hev⟩ := hev
  exact ⟨b,r,hd,hpend,h'.evaluated hr hev,hev⟩

section

variable (hs : Sound s) (h : Evolves N own s s1)
include hs h

lemma evaluated_right (hev : Evaluated s1 s2 d) :
    Evaluated s s2 d ∨ d.nodes ⊆ N ∨ ∃ d0, Evaluated s s1 d0 ∧ d.nodes ⊆ d0.nodes := by
  obtain ⟨b,r,hd,hpend,hr,hev⟩ := hev
  rcases h.newConstants b d hd with hold | ⟨-,hnew⟩
  · exact .inl ⟨b,r,hold,pending_before hs h hold hpend,hr,hev⟩
  · exact .inr hnew

/-- The numbers of the constants that are evaluated by one step after another are those of both steps; a
constant that the first step declares belongs to the nodes of that step. -/
theorem settles_trans (h' : Evolves N' own' s1 s2)
    (hid : id ∉ N.map Node.id) (hset : ¬ Settles s s2 id) : ¬ Settles s s1 id ∧ ¬ Settles s1 s2 id := by
  have hleft : ¬ Settles s s1 id := by
    rintro ⟨d,hev,hmem⟩
    exact hset ⟨d,h'.evaluated_left hev,hmem⟩
  refine ⟨hleft,?_⟩
  rintro ⟨d,hev,hmem⟩
  rcases evaluated_right hs h hev with hev | hsub | ⟨d0,hev,hsub⟩
  · exact hset ⟨d,hev,hmem⟩
  · exact hid (map_subset _ hsub hmem)
  · exact hleft ⟨d0,hev,map_subset _ hsub hmem⟩

lemma trans (h' : Evolves N own s1 s2) : Evolves N own s s2 where
  referents b r hr := by
    obtain ⟨r1,hr1,hcase⟩ := h.referents b r hr
    obtain ⟨r2,hr2,hcase'⟩ := h'.referents b r1 hr1
    refine ⟨r2,hr2,?_⟩
    rcases hcase with rfl | ⟨rfl,hev⟩ | ⟨hown,hnot,hm⟩
    · exact hcase'
    · refine .inr (.inl ⟨rfl,?_⟩)
      have := h'.evaluated hr1 hev
      rwa [← mem_unique hr2 this] at hev
    · obtain ⟨r2',hr2',hm'⟩ := h'.moves hr1
      obtain rfl := mem_unique hr2 hr2'
      exact .inr (.inr ⟨hown,hnot,hm.trans hm'⟩)
  constants b d hd := h'.constants b d (h.constants b d hd)
  newConstants b d hd := by
    rcases h'.newConstants b d hd with hd | ⟨hnone,hsub | ⟨d0,hev,hsub⟩⟩
    · refine (h.newConstants b d hd).imp_right (.imp_right (.imp_right ?_))
      rintro ⟨d0,hev,hsub⟩
      exact ⟨d0,h'.evaluated_left hev,hsub⟩
    · exact .inr ⟨h.referent?_eq_none hnone,.inl hsub⟩
    · refine .inr ⟨h.referent?_eq_none hnone,?_⟩
      rcases evaluated_right hs h hev with hev | hsub0 | ⟨d1,hev,hsub1⟩
      · exact .inr ⟨d0,hev,hsub⟩
      · exact .inl (List.Subset.trans hsub hsub0)
      · exact .inr ⟨d1,h'.evaluated_left hev,List.Subset.trans hsub hsub1⟩
  typeOf id hid hset := by
    obtain ⟨hset1,hset2⟩ := settles_trans hs h h' hid hset
    rw [h'.typeOf id hid hset2, h.typeOf id hid hset1]
  refersTo id hid hset := by
    obtain ⟨hset1,hset2⟩ := settles_trans hs h h' hid hset
    rw [h'.refersTo id hid hset2, h.refersTo id hid hset1]
  valueOf id hid hset := by
    obtain ⟨hset1,hset2⟩ := settles_trans hs h h' hid hset
    rw [h'.valueOf id hid hset2, h.valueOf id hid hset1]
  introduces id hid hset := by
    obtain ⟨hset1,hset2⟩ := settles_trans hs h h' hid hset
    rw [h'.introduces id hid hset2, h.introduces id hid hset1]
  current := h'.current.trans h.current
  parents i p hp := h'.parents i p (h.parents i p hp)
  resultTypes := h'.resultTypes.trans h.resultTypes
  errors := h'.errors ∘ h.errors

end

/-- Nodes that are not examined, and that no constant has that could be evaluated, stay as they were. -/
theorem agrees (h : Evolves N own s s1) (hdisj : (M.map Node.id).Disjoint (N.map Node.id))
    (hpend : ∀ b d, s.constant? b = some d → s.referent? b = some (.const none .pending) → (M.map Node.id).Disjoint d.ids) :
    Findings.Agrees M s.toFindings s1.toFindings :=
  have hset {id : NodeId} (hid : id ∈ M.map Node.id) : ¬ Settles s s1 id := by
    rintro ⟨d,⟨b,r,hd,hb,-,-⟩,hmem⟩
    exact hpend b d hd hb hid hmem
  { typeOf := fun id hid => h.typeOf id (hdisj hid) (hset hid)
    refersTo := fun id hid => h.refersTo id (hdisj hid) (hset hid)
    valueOf := fun id hid => h.valueOf id (hdisj hid) (hset hid)
    introduces := fun id hid => h.introduces id (hdisj hid) (hset hid)
    moves := fun _ _ hr => h.moves hr
    errors := h.errors }

end Evolves

/-! ## Steps -/

/-- A step from `s` to a sound state, made of lawful elementary steps, with the rules obeyed on `N` and
nothing that it binds left unfinished. -/
structure Advances (N : List Node) (own : List BindingId) (s s' : State) : Prop extends
    Evolves N own s s' where
  steps : Steps State.Allows s s'
  sound : Sound s'
  obeys : s'.ObeysOn N
  settled : ∀ b r, s.referent? b = none → s'.referent? b = some r → r.Settled s'.Failing

namespace Ready

variable {N N1 N2 : List Node} {own : List BindingId} {s s1 : State}

lemma perm (h : Ready N1 s) (hp : N1.Perm N2) : Ready N2 s :=
  have hids {id : NodeId} (hid : id ∈ N2.map Node.id) : id ∈ N1.map Node.id :=
    (hp.map Node.id).mem_iff.2 hid
  { h with
    nodup := (hp.map Node.id).nodup_iff.1 h.nodup
    untyped := fun id hid => h.untyped id (hids hid)
    undeclared := fun id hid => h.undeclared id (hids hid)
    apart := fun b d type stage hd hr hstage _ hid => h.apart b d type stage hd hr hstage (hids hid) }

lemma nil (h : Sound s) : Ready [] s := by
  constructor <;> simp [h]

lemma sublist (h : Ready N2 s) (hsub : N1.Sublist N2) : Ready N1 s :=
  have hids {id : NodeId} (hid : id ∈ N1.map Node.id) : id ∈ N2.map Node.id :=
    map_subset _ hsub.subset hid
  { h with
    nodup := (hsub.map Node.id).nodup h.nodup
    untyped := fun id hid => h.untyped id (hids hid)
    undeclared := fun id hid => h.undeclared id (hids hid)
    apart := fun b d type stage hd hr hstage _ hid => h.apart b d type stage hd hr hstage (hids hid) }

lemma left (h : Ready (N1 ++ N2) s) : Ready N1 s :=
  h.sublist (sublist_append_left _ _)

lemma disjoint (h : Ready (N1 ++ N2) s) : (N1.map Node.id).Disjoint (N2.map Node.id) := by
  have hnodup := h.nodup
  rw [map_append] at hnodup
  exact disjoint_of_nodup_append hnodup

lemma right (h : Ready (N1 ++ N2) s) (hstep : Advances N1 own s s1) : Ready N2 s1 := by
  have hright := (h.perm perm_append_comm).left
  have hagree := hstep.agrees (fun _ h2 h1 => h.disjoint h1 h2) fun b d hd hb =>
    hright.apart b d _ _ hd hb (by simp)
  refine ⟨hstep.sound,hright.nodup,fun id hid => ?_,fun id hid => ?_,?_⟩
  · rw [hagree.typeOf id hid]
    exact hright.untyped id hid
  · rw [hagree.introduces id hid]
    exact hright.undeclared id hid
  · intro b d type stage hd hr hstage
    rcases hstep.newConstants b d hd with hold | ⟨-,hnew⟩
    · obtain ⟨-,type',stage',hb⟩ := h.sound.declared b d hold
      refine hright.apart b d type' stage' hold hb ?_
      rintro rfl
      obtain ⟨r,hr',heq | ⟨heq,-⟩ | ⟨-,hnot,-⟩⟩ := hstep.referents b _ hb
      · rw [hr', heq] at hr
        cases hr
        exact hstage rfl
      · cases heq
      · cases hnot
    · intro id hid hmem
      rcases hnew with hsub | ⟨d0,⟨b0,-,hd0,hb0,-,-⟩,hsub⟩
      · exact h.disjoint (map_subset _ hsub hmem) hid
      · refine hright.apart b0 d0 _ _ hd0 hb0 (by simp) hid ?_
        exact map_subset _ hsub hmem

lemma after (h : Ready N s) (hstep : Advances [] own s s1) : Ready N s1 :=
  have hready : Ready ([] ++ N) s := h
  hready.right hstep

end Ready

lemma Advances.idle
    (hstep : Advances N own s s1) (h : ∀ b type, s.referent? b ≠ some (.const type .inProgress))
    (b : BindingId) (type : Option Ty) : s1.referent? b ≠ some (.const type .inProgress) := by
  intro hr
  cases hb : s.referent? b with
  | none => exact (hstep.settled b _ hb hr).2 rfl
  | some r =>
    obtain ⟨r',hr',hcase⟩ := hstep.referents b r hb
    obtain rfl := mem_unique hr' hr
    rcases hcase with rfl | ⟨-,type',stage,heq,-,hstage⟩ | ⟨-,hnot,hm⟩
    · exact h b type hb
    · cases heq
      exact hstage rfl
    · cases hm <;> cases hnot

lemma Advances.func_before
    (hstep : Advances N own s s1) {params : List Formal} (hr : s1.referent? b = some (.func .error params)) :
    s1.Failing ∨ ∃ params', s.referent? b = some (.func .error params') := by
  cases hb : s.referent? b with
  | none => exact .inl (hstep.settled b _ hb hr rfl)
  | some r =>
    obtain ⟨r',hr',hm⟩ := hstep.moves hb
    obtain rfl := mem_unique hr' hr
    cases hm <;> exact .inr ⟨_,rfl⟩

lemma Calm.step (h : Calm s)
    (hstep : Advances N own s s1) : Calm s1 := by
  refine ⟨hstep.idle h.idle,fun b params hr => ?_⟩
  rcases hstep.func_before hr with hf | ⟨params',hb⟩
  · exact hf
  · exact hstep.errors (h.signatures b params' hb)

namespace Advances

variable {N N1 N2 : List Node} {own own1 own2 : List BindingId} {s s1 s2 : State}

lemma refl (h : Ready N s) (own : List BindingId) : Advances N own s s where
  toEvolves := .refl N own s
  steps := .refl
  sound := h.sound
  obeys e he t ht := by
    rw [Findings.typeAt, h.untyped _ (id_mem_of_expr he)] at ht
    cases ht
  settled b r hnone hr := by
    rw [hnone] at hr
    cases hr

lemma perm (h : Advances N1 own s s1) (hp : N1.Perm N2) : Advances N2 own s s1 where
  toEvolves := h.mono hp.subset (List.Subset.refl _)
  steps := h.steps
  sound := h.sound
  obeys e he t ht := (h.obeys e (hp.mem_iff.2 he) t ht).imp_right (.imp_right (·.mono hp.subset))
  settled := h.settled

section

variable (hready : Ready (N1 ++ N2) s) (h1 : Advances N1 own1 s s1) (h2 : Advances N2 own2 s1 s2)
include hready h1 h2

/-- A second step leaves what the first one found as it is. -/
theorem kept : Findings.Agrees N1 s1.toFindings s2.toFindings := by
  refine h2.agrees hready.disjoint fun b d hd hb => ?_
  -- A constant that the first step binds is not pending after it.
  cases hold : s.referent? b with
  | none => exact absurd rfl (h1.settled b _ hold hb).1
  | some r =>
    rcases h1.newConstants b d hd with hconst | ⟨hnone,-⟩
    · have hr := Evolves.pending_before hready.sound h1.toEvolves hconst hb
      exact hready.left.apart b d _ _ hconst hr (by simp)
    · rw [hnone] at hold
      cases hold

lemma trans [Closed N1] (hown : ∀ b ∈ own2, s.referent? b ≠ none) : Advances (N1 ++ N2) (own1 ++ own2) s s2 where
  toEvolves := Evolves.trans hready.sound
    (h1.mono (subset_append_left _ _) (subset_append_left _ _))
    (h2.mono (subset_append_right _ _) (subset_append_right _ _))
  steps := h1.steps.trans h2.steps
  sound := h2.sound
  obeys := .append (Findings.ObeysOn.agrees h1.obeys (kept hready h1 h2)) h2.obeys
  settled b r hnone hr := by
    cases hb : s1.referent? b with
    | none => exact h2.settled b r hb hr
    | some r1 =>
      have hset := h1.settled b r1 hnone hb
      obtain ⟨r2,hr2,hcase⟩ := h2.referents b r1 hb
      obtain rfl := mem_unique hr2 hr
      rcases hcase with rfl | ⟨rfl,-⟩ | ⟨hmem,-⟩
      · exact hset.mono h2.errors
      · exact absurd rfl hset.1
      · exact absurd hnone (hown b hmem)

end

end Advances

/-! ## Steps in sequence -/

lemma Steps.introduces_kept (h : Steps State.Allows s s')
    (hb : s.introduces[id]? = some b) : s'.introduces[id]? = some b := by
  induction h with
  | refl => exact hb
  | @step s1 e _ he ih =>
    cases e with
    | introduced d b' =>
      -- a number that is taken is not introduced again
      have hne : d.id ≠ id := by
        rintro rfl
        cases he.1.symm.trans ih
      exact (Std.TreeMap.getElem?_insert.trans (by simp [hne])).trans ih
    | _ => exact ih

/-- A step in which what is introduced is bound on the way, and in which no name uses a variable that is declared
later. -/
structure Proceeds (N : List Node) (own : List BindingId) (s s' : State) : Prop extends
    Advances N own s s' where
  fresh : ∀ (id : NodeId) b, s.introduces[id]? = none → s'.introduces[id]? = some b →
    s.referent? b = none
  inSequence : s'.InSequence N

namespace Proceeds

variable {N N1 N2 : List Node} {own own1 own2 : List BindingId} {s s1 s2 : State}

lemma refl (h : Ready N s) (own : List BindingId) : Proceeds N own s s where
  toAdvances := .refl h own
  fresh id b hnone hb := by cases hnone.symm.trans hb
  inSequence := .of_untyped fun _ hx => h.untyped _ (id_mem_of_expr hx)

lemma perm (h : Proceeds N1 own s s1) (hp : N1.Perm N2)
    (hprec : ∀ d x, Precedes N1 d x → Precedes N2 d x) : Proceeds N2 own s s1 where
  toAdvances := h.toAdvances.perm hp
  fresh := h.fresh
  inSequence x name d b hx hform ht hb hd hid :=
    hprec d x (h.inSequence x name d b (hp.mem_iff.2 hx) hform ht hb (hp.mem_iff.2 hd) hid)

lemma fresh_trans (h1 : Proceeds N1 own1 s s1) (h2 : Proceeds N2 own2 s1 s2) (id : NodeId)
    (b : BindingId) (hnone : s.introduces[id]? = none) (hb : s2.introduces[id]? = some b) : s.referent? b = none := by
  cases hid : s1.introduces[id]? with
  | none => exact h1.referent?_eq_none (h2.fresh id b hid hb)
  | some b' =>
    obtain rfl := mem_unique (h2.steps.introduces_kept hid) hb
    exact h1.fresh id b' hnone hid

lemma trans [Closed N1] (hready : Ready (N1 ++ N2) s) (h1 : Proceeds N1 own1 s s1)
    (h2 : Proceeds N2 own2 s1 s2) (hown : ∀ b ∈ own2, s.referent? b ≠ none) : Proceeds (N1 ++ N2) (own1 ++ own2) s s2 where
  toAdvances := h1.toAdvances.trans hready h2.toAdvances hown
  fresh := fresh_trans h1 h2
  inSequence := by
    have hkept := Advances.kept hready h1.toAdvances h2.toAdvances
    refine (h1.inSequence.agrees hkept).append h2.inSequence fun d b hd hid => ?_
    -- the names of `N1` were examined before the variable was bound
    have hnone := (hready.right h1.toAdvances).undeclared _ (id_mem_of_decl hd)
    have hfresh := h2.fresh _ b hnone hid
    exact Findings.Avoids.agrees (h1.obeys.avoids fun r _ hr => nomatch hfresh.symm.trans hr) hkept

lemma weaken [Closed N1] (hready : Ready (N1 ++ N2) s) (h : Proceeds N1 own s s1) : Proceeds (N1 ++ N2) own s s1 := by
  have := trans hready h (refl (hready.right h.toAdvances) []) (by simp)
  rwa [append_nil] at this

end Proceeds

end Opal
