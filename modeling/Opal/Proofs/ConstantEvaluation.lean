import Opal.Proofs.ConstantExpressions

/-!
# The evaluation of constants

A constant whose value is needed has a value, or something was reported. It is in progress while it is evaluated, hence the
bound on the depth of evaluations is never met.
-/

namespace Opal

open Findings (Agrees)
open Option List

variable {errors : Array SemanticError} {stage : ConstStage} {own : List BindingId} {N : List Node} {values : Table Value}

section Marking

variable {s s1 : State} {a b : BindingId} {f : Referent → Referent} {r : Referent}

lemma referent?_marked (s : State) (b : BindingId) (f : Referent → Referent) (a : BindingId) :
    (s.marked b f).referent? a = if b = a then (s.referent? a).map f else s.referent? a := by
  simp only [Findings.referent?, State.marked, ScopeTree.modifyReferent, Array.getElem?_modify]
  split
  · cases s.scopes.bindings[a]? <;> rfl
  · rfl

lemma steps_marked (hb : s.referent? b = some r) (hnext : r.Next (f r)) : Steps State.Allows s (s.marked b f) := by
  obtain ⟨binding,hbinding,rfl⟩ := map_eq_some_iff.1 hb
  rw [s.marked_eq_step hbinding]
  exact .single ⟨_,hb,hnext⟩

lemma referent?_marked_self (hb : s.referent? b = some r) : (s.marked b f).referent? b = some (f r) := by
  rw [referent?_marked, if_pos rfl, hb, map_some]

lemma referent?_marked_of_ne (h : b ≠ a) : (s.marked b f).referent? a = s.referent? a := by
  rw [referent?_marked, if_neg h]

lemma agrees_marked (hb : s.referent? b = some r) (hm : r.Moves (f r)) (M : List Node) :
    Agrees M s.toFindings (s.marked b f).toFindings :=
  { Agrees.refl M s.toFindings with
    moves := fun a r' hr => by
      by_cases hab : b = a
      · subst hab
        obtain rfl := mem_unique hb hr
        exact ⟨f r,referent?_marked_self hb,hm⟩
      · exact ⟨r',(referent?_marked_of_ne hab).trans hr,.refl r'⟩ }

/-- A binding may be changed as long as its type is not known, if what is known afterwards is
consistent. -/
theorem Sound.marked (hs : Sound s) (hb : s.referent? b = some r) (hm : r.Moves (f r)) (hwf : (f r).WellFormed s.Failing)
    (hstage : ∀ type stage, f r = .const type stage →
      ∃ d, s.constant? b = some d ∧ (s.marked b f).StageSound d stage) : Sound (s.marked b f) := by
  refine hs.update (fun _ => rfl) (fun _ _ h => h) hs.results (fun hf => hf)
    (fun _ d _ _ _ _ _ => agrees_marked hb hm d.nodes) ?_ ?_
  · intro a type stage hr
    obtain ⟨r',hr',hm'⟩ := (agrees_marked hb hm []).moves a _ hr
    cases hm' with
    | refl => exact ⟨type,stage,hr'⟩
    | const _ type' stage' => exact ⟨type',stage',hr'⟩
  · intro a r' hr
    by_cases hab : b = a
    · subst hab
      obtain rfl := mem_unique (referent?_marked_self hb) hr
      exact .inr ⟨hwf,hstage⟩
    · exact .inl ((referent?_marked_of_ne hab).symm.trans hr)

lemma evolves_marked (N : List Node) (hown : b ∈ own)
    (hb : s.referent? b = some r) (hconst : r.isConst = false) (hm : r.Moves (f r)) : Evolves N own s (s.marked b f) where
  referents a r' hr := by
    by_cases hab : b = a
    · subst hab
      obtain rfl := mem_unique hb hr
      exact ⟨f r,referent?_marked_self hb,.inr (.inr ⟨hown,hconst,hm⟩)⟩
    · exact ⟨r',(referent?_marked_of_ne hab).trans hr,.inl rfl⟩
  constants _ _ hd := hd
  newConstants _ _ hd := .inl hd
  typeOf _ _ _ := rfl
  refersTo _ _ _ := rfl
  valueOf _ _ _ := rfl
  introduces _ _ _ := rfl
  current := rfl
  parents _ _ hp := hp
  resultTypes := rfl
  errors hf := hf

lemma Advances.marked [Closed N] (hs : Sound s) (h : Advances N own s s1) (hown : b ∈ own) (hb : s.referent? b ≠ none)
    (hb1 : s1.referent? b = some r) (hconst : r.isConst = false) (hm : r.Moves (f r))
    (hnext : r.Next (f r)) (hwf : (f r).WellFormed s1.Failing) : Advances N own s (s1.marked b f) where
  toEvolves := .trans hs h.toEvolves (evolves_marked N hown hb1 hconst hm)
  steps := h.steps.trans (steps_marked hb1 hnext)
  sound := h.sound.marked hb1 hm hwf fun type stage heq => by
    have := hm.isConst_eq
    rw [heq, hconst] at this
    cases this
  obeys := Findings.ObeysOn.agrees h.obeys (agrees_marked hb1 hm N)
  settled a r' hnone hr := by
    have hab : b ≠ a := fun hab => hb (hab ▸ hnone)
    exact h.settled a r' hnone ((referent?_marked_of_ne hab).symm.trans hr)

lemma Proceeds.marked [Closed N] (hs : Sound s) (h : Proceeds N own s s1) (hown : b ∈ own) (hb : s.referent? b ≠ none)
    (hb1 : s1.referent? b = some r) (hconst : r.isConst = false) (hm : r.Moves (f r))
    (hnext : r.Next (f r)) (hwf : (f r).WellFormed s1.Failing) : Proceeds N own s (s1.marked b f) where
  toAdvances := h.toAdvances.marked hs hown hb hb1 hconst hm hnext hwf
  fresh := h.fresh
  inSequence := h.inSequence.agrees (agrees_marked hb1 hm N)

end Marking

def State.begun (s : State) (b : BindingId) : State :=
  s.marked b (·.setConstStage .inProgress)

def State.concluded (s : State) (b : BindingId) (t : Ty) (stage : ConstStage)
    (values : Table Value) (errors : Array SemanticError) (journal : List Event) : State :=
  { s with
    scopes := s.scopes.modifyReferent b fun r => (r.setConstType t).setConstStage stage
    valueOf := values, errors := errors, journal := journal }

section Declaration

variable {constants : Constants} {J : State → Prop} {s : State}

lemma requiredType_meets (hc : Supplies constants J) (scope : ScopeId) (type : Option TypeExpr)
    (hready : Ready (optionalTypeNodes type) s) (hJ : J s) :
    Meets (optionalTypeNodes type) s (requiredType constants scope type) fun expected s' =>
      Expects expected ∧ s'.Complete (optionalTypeNodes type) ∧
        ∀ w, type = some w → ∃ t name, expected = some t ∧ w.form = .named name ∧ Ty.ofName name = .ok t := by
  cases type with
  | none =>
    refine .pure hready ⟨.none,?_,by simp⟩
    rw [optionalTypeNodes]; exact .nil
  | some w =>
    rw [optionalTypeNodes] at hready ⊢
    refine (w.denote_meets scope hc .value s hready hJ).andThen hready fun t s1 hstep ht => ?_
    have hnil := Ready.nil hstep.sound
    refine .ite (fun hscalar => .pure hnil fun _ => ?_) fun _ => .fail hnil _ _
    refine ⟨.some ht.result,w.nodes_form ▸ ht.complete,?_⟩
    rintro _ ⟨⟩
    obtain ⟨name,hform,hname⟩ := ht.scalar hscalar
    exact ⟨t,name,rfl,hform,hname⟩

/-- The value of the declaration of a constant. -/
structure DeclValue (d : ConstDecl) (v : Value) (s : State) : Prop where
  annotation : ∀ w, d.type = some w → ∃ name, w.form = .named name ∧ Ty.ofName name = .ok v.type
  evaluates : s.Evaluates d.value v
  complete : s.Complete d.parts

lemma evaluateDecl_meets (hc : Supplies constants J) (scope : ScopeId) (d : ConstDecl) (hready : Ready d.parts s) (hJ : J s) :
    Meets d.parts s (evaluateDecl constants scope d) (DeclValue d) := by
  refine Meets.bind hready (requiredType_meets hc scope d.type hready.left hJ) fun expected s1 hstep hexp => ?_
  obtain ⟨hexp,hcomplete,htype⟩ := hexp
  refine (d.value.constant_evaluator hc scope expected s1 (hready.right hstep) (hc.stable hstep hJ)
    hexp).mono fun v s2 _ hv ha => ⟨fun w hw => ?_,hv.evaluates,?_⟩
  · obtain ⟨t,name,rfl,hform,hname⟩ := htype w hw
    exact ⟨name,hform,hv.expected t rfl ▸ hname⟩
  · exact (hcomplete.agrees ha).append hv.complete

end Declaration

/-! ## One evaluation -/

/-- Whatever the evaluation of a declaration ends with, it is noted for the constant. -/
theorem run_evaluateFresh (constants : Constants) (b : BindingId) (scope : ScopeId) (d : ConstDecl) (s : State) :
    (evaluateFresh constants b scope d).run s = let r := (evaluateDecl constants scope d).run (s.begun b)
      match r.1 with
      | .ok v => (.ok v, (r.2.marked b fun r =>
          (r.setConstType v.type).setConstStage (.done v)).step (.valued d.id v))
      | .error stop => (.error .blocked, (r.2.step stop.event).marked b fun r =>
          (r.setConstType .error).setConstStage .failed) := by
  have hmark : (liftM (modifyReferent b (·.setConstStage .inProgress)) : Check Unit).run s = (.ok (), s.begun b) := rfl
  unfold evaluateFresh
  rw [Check.run_bind, hmark]
  dsimp only
  rw [Check.run_tryCatch, Check.run_bind]
  generalize (evaluateDecl constants scope d).run (s.begun b) = r
  obtain ⟨r,s1⟩ := r
  cases r <;> rfl

section Evaluation

variable {s s1 : State} {b : BindingId} {d : ConstDecl} {t : Ty} {journal : List Event} {constants : Constants} {J : State → Prop}

lemma Ready.begun (hs : Sound s) (hd : s.constant? b = some d)
    (hb : s.referent? b = some (.const none .pending)) : Ready d.parts (s.begun b) := by
  have hids : d.parts.map Node.id ⊆ d.ids := d.ids_eq ▸ subset_append_left _ _
  have hpending := hs.stages b d _ _ hd hb
  refine ⟨?_,?_,fun id hid => (hpending id hid).1,fun id hid => (hpending id hid).2,?_⟩
  · refine hs.marked hb (.const _ _ _ (by simp)) rfl ?_
    rintro _ _ ⟨⟩
    exact ⟨d,hd,trivial⟩
  · have hnodup := hs.nodup b d hd
    rw [d.ids_eq] at hnodup
    exact (nodup_append.1 hnodup).1
  · intro a d' type stage hd' hr hstage id hid
    by_cases hab : b = a
    · subst hab
      cases (referent?_marked_self hb).symm.trans hr
      exact absurd rfl hstage
    · exact hs.apart b a d d' hd hd' hab (hids hid)

lemma Advances.referent?_begun (h : Advances d.parts [] (s.begun b) s1) (hb : s.referent? b = some (.const none .pending)) :
    s1.referent? b = some (.const none .inProgress) := by
  obtain ⟨r,hr,rfl | ⟨heq,-⟩ | ⟨hmem,-⟩⟩ := h.referents b _ (referent?_marked_self hb)
  · exact hr
  · cases heq
  · cases hmem

lemma referent?_concluded (hb : s.referent? b = some (.const none .inProgress)) (t : Ty)
    (stage : ConstStage) (values : Table Value) (errors : Array SemanticError) (journal : List Event) :
    (s.concluded b t stage values errors journal).referent? b = some (.const (some t) stage) :=
  referent?_marked_self hb

lemma Sound.noted (hs : Sound s) (hd : s.constant? b = some d) (hb : s.referent? b = some (.const none .inProgress))
    (hvalues : ∀ id : NodeId, id ≠ d.id → values[id]? = s.valueOf[id]?) (herrors : s.Failing → errors ≠ #[]) :
    Sound { s with valueOf := values, errors := errors } := by
  refine hs.update (fun _ => rfl) (fun _ _ h => h) hs.results herrors ?_
    (fun _ type stage hr => ⟨type,stage,hr⟩) (fun _ _ hr => .inl hr)
  intro a d' type stage hd' hr hstage
  have hab : a ≠ b := by
    rintro rfl
    cases hb.symm.trans hr
    exact hstage rfl
  refine { Agrees.refl d'.nodes s.toFindings with valueOf := fun id hid => ?_, errors := herrors }
  refine hvalues id ?_
  rintro rfl
  exact hs.apart a b d' d hd' hd hab hid (by simp [d.ids_eq])

lemma Sound.withJournal (h : Sound s) (journal : List Event) : Sound { s with journal := journal } :=
  ⟨h.wellFormed,h.constant,h.declared,h.nodup,h.apart,h.stages,h.results⟩

/-- After the evaluation of a constant everything is as it was, but for this constant and those
evaluated inside. -/
theorem Advances.concluded (hs : Sound s) (hd : s.constant? b = some d)
    (hb : s.referent? b = some (.const none .pending)) (h : Advances d.parts [] (s.begun b) s1)
    (hsteps : Steps State.Allows s1 (s1.concluded b t stage values errors journal))
    (hstage : stage ≠ .pending ∧ stage ≠ .inProgress) (hvalues : ∀ id : NodeId, id ≠ d.id → values[id]? = s1.valueOf[id]?)
    (herrors : s1.Failing → errors ≠ #[]) (hwf : (Referent.const (some t) stage).WellFormed (errors ≠ #[]))
    (hsound : Agrees d.parts s1.toFindings (s1.concluded b t stage values errors journal).toFindings →
      (s1.concluded b t stage values errors journal).StageSound d stage) :
    Advances [] [] s (s1.concluded b t stage values errors journal) := by
  have hbegun : (s.begun b).referent? b = some (.const none .inProgress) := referent?_marked_self hb
  have hprogress := h.referent?_begun hb
  have hself := referent?_concluded hprogress t stage values errors journal
  have hother {a : BindingId} (hab : b ≠ a) : (s.begun b).referent? a = s.referent? a ∧
        (s1.concluded b t stage values errors journal).referent? a = s1.referent? a :=
    ⟨referent?_marked_of_ne hab,referent?_marked_of_ne hab⟩
  have hevaluated : Evaluated s (s1.concluded b t stage values errors journal) d :=
    ⟨b,_,hd,hb,hself,t,stage,rfl,hstage⟩
  have hinner {d' : ConstDecl} (hev : Evaluated (s.begun b) s1 d') :
      Evaluated s (s1.concluded b t stage values errors journal) d' := by
    obtain ⟨a,r,hd',hpend,hr,hev⟩ := hev
    have hab : b ≠ a := by
      rintro rfl
      cases hbegun.symm.trans hpend
    exact ⟨a,r,hd',(hother hab).1.symm.trans hpend,(hother hab).2.trans hr,hev⟩
  have hids : d.parts.map Node.id ⊆ d.ids := d.ids_eq ▸ subset_append_left _ _
  have hself_id : d.id ∈ d.ids := by simp [d.ids_eq]
  have hset {id : NodeId} (hid : ¬ Settles s (s1.concluded b t stage values errors journal) id) :
      id ∉ d.ids ∧ ¬ Settles (s.begun b) s1 id := by
    refine ⟨fun hmem => hid ⟨d,hevaluated,hmem⟩,?_⟩
    rintro ⟨d',hev,hmem⟩
    exact hid ⟨d',hinner hev,hmem⟩
  have hnoted := h.sound.noted (h.constants b d hd) hprogress hvalues herrors
  have hmoves : (Referent.const none .inProgress).Moves (.const (some t) stage) :=
    .const _ _ _ (by simp)
  refine { referents := ?_, constants := h.constants, newConstants := ?_, typeOf := ?_,
           refersTo := ?_, valueOf := ?_, introduces := ?_, current := h.current,
           parents := h.parents, resultTypes := h.resultTypes,
           errors := fun hf => herrors (h.errors hf), steps := ?_, sound := ?_, obeys := ?_,
           settled := ?_ }
  · intro a r hr
    by_cases hab : b = a
    · subst hab
      obtain rfl := mem_unique hb hr
      exact ⟨_,hself,.inr (.inl ⟨rfl,t,stage,rfl,hstage⟩)⟩
    · obtain ⟨r',hr',hcase⟩ := h.referents a r ((hother hab).1.trans hr)
      exact ⟨r',(hother hab).2.trans hr',hcase⟩
  · intro a d' hd'
    rcases h.newConstants a d' hd' with hold | ⟨hnone,hnew⟩
    · exact .inl hold
    · have hab : b ≠ a := by
        rintro rfl
        cases hbegun.symm.trans hnone
      refine .inr ⟨(hother hab).1.symm.trans hnone,.inr ?_⟩
      rcases hnew with hsub | ⟨d0,hev,hsub⟩
      · exact ⟨d,hevaluated,List.Subset.trans hsub d.parts_subset⟩
      · exact ⟨d0,hinner hev,hsub⟩
  · intro id _ hid
    exact h.typeOf id (fun hmem => (hset hid).1 (hids hmem)) (hset hid).2
  · intro id _ hid
    exact h.refersTo id (fun hmem => (hset hid).1 (hids hmem)) (hset hid).2
  · intro id _ hid
    have hne : id ≠ d.id := fun heq => (hset hid).1 (heq ▸ hself_id)
    exact (hvalues id hne).trans (h.valueOf id (fun hmem => (hset hid).1 (hids hmem)) (hset hid).2)
  · intro id _ hid
    exact h.introduces id (fun hmem => (hset hid).1 (hids hmem)) (hset hid).2
  · exact (steps_marked hb .inProgress).trans (h.steps.trans hsteps)
  · refine (hnoted.marked (f := fun r => (r.setConstType t).setConstStage stage) hprogress hmoves hwf
      ?_).withJournal journal
    rintro _ _ ⟨⟩
    refine ⟨d,h.constants b d hd,hsound ?_⟩
    have hparts : d.id ∉ d.parts.map Node.id := by
      have hnodup := hs.nodup b d hd
      rw [d.ids_eq] at hnodup
      exact fun hmem => disjoint_of_nodup_append hnodup hmem (mem_singleton_self _)
    have hnotes : Agrees d.parts s1.toFindings { s1.toFindings with valueOf := values, errors := errors } :=
      { Agrees.refl d.parts s1.toFindings with
        valueOf := fun id hid => hvalues id fun heq => hparts (heq ▸ hid)
        errors := herrors }
    exact hnotes.trans (agrees_marked (s := { s1 with valueOf := values, errors := errors }) hprogress hmoves d.parts)
  · intro e he
    cases he
  · intro a r hnone hr
    have hab : b ≠ a := by
      rintro rfl
      cases hb.symm.trans hnone
    exact (h.settled a r ((hother hab).1.trans hnone) ((hother hab).2.symm.trans hr)).mono herrors

lemma Proceeds.concluded (hb : s.referent? b = some (.const none .pending))
    (h : Proceeds d.parts [] (s.begun b) s1) (hadvances : Advances [] [] s (s1.concluded b t stage values errors journal)) :
    Proceeds [] [] s (s1.concluded b t stage values errors journal) where
  toAdvances := hadvances
  fresh id a hnone hid := by
    have hbegun := h.fresh id a hnone hid
    by_cases hab : b = a
    · subst hab
      cases (referent?_marked_self hb).symm.trans hbegun
    · exact (referent?_marked_of_ne hab).symm.trans hbegun
  inSequence := fun _ _ _ _ hx => nomatch hx

/-- A constant that is not in progress is evaluated, and nothing else but what this needs. -/
theorem evaluateFresh_meets (hc : Supplies constants J) (scope : ScopeId) (hs : Sound s) (hd : s.constant? b = some d)
    (hb : s.referent? b = some (.const none .pending)) (hJ : J (s.begun b)) : Meets [] s (evaluateFresh constants b scope d)
        (fun v s' => ∃ type, s'.referent? b = some (.const type (.done v))) ∧
      Decided ((evaluateFresh constants b scope d).run s).2 b := by
  obtain ⟨hstep,hout⟩ := evaluateDecl_meets hc scope d (.begun hs hd hb) hJ
  unfold Meets
  rw [run_evaluateFresh]
  generalize (evaluateDecl constants scope d).run (s.begun b) = out at hstep hout
  obtain ⟨r,s1⟩ := out
  have hprogress := hstep.referent?_begun hb
  have hself := referent?_concluded hprogress
  match r, hout with
  | .ok v, hout =>
    have hid := (hstep.sound.declared b d (hstep.constants b d hd)).1
    have hsteps := Steps.step (.valued d.id v)
      (steps_marked (f := fun r => (r.setConstType v.type).setConstStage (.done v)) hprogress (.done v))
      ⟨b,hid,referent?_marked_self hprogress⟩
    refine ⟨⟨.concluded hb hstep (.concluded hs hd hb hstep.toAdvances hsteps (by simp)
      (fun id hid => ?_) (fun hf => hf) rfl fun ha => ?_),_,hself ..⟩,_,_,hself ..,by simp⟩
    · rw [Table.getElem?_insert, if_neg (Ne.symm hid)]
      rfl
    · refine ⟨⟨Findings.ObeysOn.agrees hstep.obeys ha,hstep.inSequence.agrees ha⟩,?_,
        hout.annotation,?_,hout.complete.agrees ha⟩
      · exact (Table.getElem?_insert ..).trans (if_pos rfl)
      · exact hout.evaluates.agrees (ha.mono (subset_append_right _ _))
  | .error stop, hout =>
    have hfailing := Stop.failing hout
    have hsteps := (Steps.single hout).trans (steps_marked (s := s1.step stop.event) (b := b)
      (f := fun r => (r.setConstType .error).setConstStage .failed) (by cases stop <;> exact hprogress) .failed)
    cases stop with
    | error | blocked =>
      have hconcluded : Proceeds [] [] s (s1.concluded b .error .failed s1.valueOf (s1.step (Stop.event _)).errors _) :=
        .concluded hb hstep (.concluded hs hd hb hstep.toAdvances hsteps (by simp) (fun _ _ => rfl) (fun _ => hfailing)
          ⟨hfailing,by simp⟩ fun ha => ⟨Findings.ObeysOn.agrees hstep.obeys ha,hstep.inSequence.agrees ha⟩)
      exact ⟨⟨hconcluded,hfailing⟩,_,_,hself ..,by simp⟩

lemma evaluateWith_meets (hc : Supplies constants J) {type : Option Ty} (hs : Sound s)
    (hb : s.referent? b = some (.const type stage)) (hstage : stage ≠ .inProgress) (hJ : stage = .pending → J (s.begun b)) :
    Meets [] s (evaluateWith constants b) (fun v s' => ∃ type, s'.referent? b = some (.const type (.done v))) ∧
      Decided ((evaluateWith constants b).run s).2 b := by
  have hnil := Ready.nil hs
  have hwf := hs.wellFormed b _ hb
  obtain ⟨⟨name,scope,span,r⟩,hbinding,rfl⟩ := map_eq_some_iff.1 hb
  unfold Meets
  rw [evaluateWith, Check.run_bind, Check.run_get]
  simp only [hbinding]
  cases stage with
  | done v => exact ⟨⟨.refl hnil [],type,hb⟩,type,.done v,hb,by simp⟩
  | pending =>
    obtain rfl : type = none := hwf
    obtain ⟨d,hd⟩ := hs.constant b _ _ hb
    have hd' : s.constants[b]? = some d := hd
    rw [hd']
    exact evaluateFresh_meets hc scope hs hd hb (hJ rfl)
  | failed => exact ⟨⟨.refl hnil [],hwf.1⟩,type,.failed,hb,by simp⟩
  | inProgress => exact absurd rfl hstage

end Evaluation

/-! ## Evaluations inside one another -/

/-- Fewer than `n` constants may still be evaluated. -/
def Bounded (n : Nat) (s : State) : Prop :=
  ∃ open_ : List BindingId, (∀ b, s.referent? b = some (.const none .pending) → b ∈ open_) ∧ open_.length < n

section Nesting

variable {n : Nat} {s s' : State} {b : BindingId}

lemma Bounded.step (h : Advances N [] s s') (hb : Bounded n s) : Bounded n s' := by
  obtain ⟨l,hl,hlen⟩ := hb
  refine ⟨l,fun b hr => hl b ?_,hlen⟩
  cases hold : s.referent? b with
  | none => exact absurd rfl (h.settled b _ hold hr).1
  | some r =>
    obtain ⟨r',hr',rfl | ⟨-,hev⟩ | ⟨hmem,-⟩⟩ := h.referents b r hold
    · exact hr'.symm.trans hr
    · obtain rfl := mem_unique hr' hr
      exact absurd hev Referent.not_isEvaluated_pending
    · cases hmem

lemma Bounded.begun (h : Bounded (n + 1) s) (hb : s.referent? b = some (.const none .pending)) : Bounded n (s.begun b) := by
  obtain ⟨l,hl,hlen⟩ := h
  refine ⟨l.erase b,fun a hr => ?_,?_⟩
  · have hab : b ≠ a := by
      rintro rfl
      cases (referent?_marked_self hb).symm.trans hr
    exact (mem_erase_of_ne hab.symm).2 (hl a ((referent?_marked_of_ne hab).symm.trans hr))
  · have := length_erase_of_mem (hl b hb)
    have := length_pos_of_mem (hl b hb)
    omega

/-- The bound on the depth of evaluations is never met as long as fewer constants may be evaluated. -/
theorem supplies_constantWithin : ∀ n, Supplies (constantWithin n) (Bounded n)
  | 0 => by
    refine ⟨Bounded.step,?_,?_⟩ <;> rintro s b type stage hs ⟨l,-,hlen⟩ <;> cases hlen
  | n + 1 => by
    have hmeets (s : State) (b : BindingId) type stage (hs : Sound s) (hb : Bounded (n + 1) s)
        (hr : s.referent? b = some (.const type stage)) (hstage : stage ≠ .inProgress) :=
      evaluateWith_meets (supplies_constantWithin n) hs hr hstage fun hpending => by
        subst hpending
        obtain rfl : type = none := hs.wellFormed b _ hr
        exact hb.begun hr
    exact ⟨Bounded.step,fun s b type stage hs hb hr hstage => (hmeets s b type stage hs hb hr hstage).1,
      fun s b type stage hs hb hr hstage => (hmeets s b type stage hs hb hr hstage).2⟩

lemma bounded_size (s : State) : Bounded (s.scopes.bindings.size + 1) s := by
  refine ⟨List.range s.scopes.bindings.size,fun b hr => ?_,by simp⟩
  obtain ⟨binding,hbinding,-⟩ := map_eq_some_iff.1 hr
  exact mem_range.2 (Array.getElem?_eq_some_iff.1 hbinding).1

lemma run_constantValue (s : State) (b : BindingId) :
    (constantValue b).run s = (constantWithin (s.scopes.bindings.size + 1) b).run s := by
  rw [constantValue, Check.run_bind, Check.run_get]

/-- Every constant that is not in progress has a value, or something was reported. -/
theorem supplies_constantValue : Supplies constantValue fun _ => True where
  stable _ _ := trivial
  meets s b type stage hs _ hr hstage :=
    ((supplies_constantWithin _).meets s b type stage hs (bounded_size s) hr hstage).of_run_eq (run_constantValue s b)
  decided s b type stage hs _ hr hstage := by
    rw [run_constantValue]
    exact (supplies_constantWithin _).decided s b type stage hs (bounded_size s) hr hstage

lemma denoteHere_meets (w : TypeExpr) (position : Position) (hready : Ready w.nodes s) :
    Meets w.nodes s (denoteHere w position) (Denoted w.form position) :=
  Meets.read rfl (w.denote_meets s.scopes.current supplies_constantValue position s hready trivial)

end Nesting

end Opal
