import Opal.Proofs.CheckedModules
import Opal.Proofs.CoupledTrees
import Opal.Proofs.OrderlyStates

/-!
# Checks go through orderly states

A run of a check, coupled with itself, is in an orderly state whenever it examines a construct. It is enough to show this of the
elementary steps.
-/

namespace Opal

open ScopeTree

open Coupling (InStep RunInStep)

variable {b : BindingId} {r : Referent}

variable {s1 : State} {e : Event} {F : Frame} {params : List Formal} {t : Ty} {stage : ConstStage} {d : Decl} {Γ : Env}
    {f : Referent → Referent}

namespace State

variable {L : List (Node × Env)} {s : State}

/-- The step neither binds a name nor declares anything, and the current scope and the result types stay. -/
structure Stays (L : List (Node × Env)) (s : State) (e : Event) : Prop where
  admits : s.Admits e
  enters : s.Enters L e
  plain : e.isPlain = true
  current : (s.step e).scopes.current = s.scopes.current
  resultTypes : (s.step e).resultTypes = s.resultTypes

lemma Stays.stop (stop : Stop) : s.Stays L stop.event := by
  cases stop <;> exact ⟨trivial,trivial,rfl,rfl,rfl⟩

lemma Stays.grows (h : s.Stays L e) : s.Grows s.scopes.parents.size (s.step e) := by
  refine .plain h.admits fun b x heq => ?_
  obtain rfl := heq
  cases h.plain

lemma Intact.alike (h : s.Intact) (hr : s.referent? b = some r) : r.Alike s.KnowsResult s.KnowsValue r := by
  have hsuits := h.referents b r hr
  cases r with
  | var type mutable stage => exact .var mutable hsuits.2
  | const type stage => exact .const type type .rfl
  | func t params => exact .func (fun ht => ⟨hsuits.1,ht⟩) hsuits.2

end State

/-! ## Changes of referents -/

namespace State

variable {L : List (Node × Env)} {s : State} {b : BindingId} {r : Referent}

lemma Suits.setConstStage (h : s.Suits r) (stage : ConstStage) : s.Suits (r.setConstStage stage) := by
  cases r with
  | var | const | func => exact h

lemma Suits.setConstType (h : s.Suits r) (ht : s.Numbers t) : s.Suits (r.setConstType t) := by
  cases r with
  | var | func => exact h
  | const =>
    rintro _ ⟨⟩
    exact ht

lemma Suits.varChange (h : s.Suits r) (herror : s.Numbers .error) (hf : Referent.VarChange s.KnowsValue f) : s.Suits (f r) := by
  cases r with
  | const | func => cases hf <;> exact h
  | var type mutable stage =>
    cases hf with
    | initializing => exact ⟨h.1,nofun⟩
    | @initialized t ht =>
      refine ⟨?_,fun _ => ⟨t,rfl,ht⟩⟩
      rintro _ ⟨⟩
      exact ht.1.1
    | failed =>
      refine ⟨?_,nofun⟩
      rintro _ ⟨⟩
      exact herror

lemma Ledger.enters_changed (h : s.Ledger L) {r' : Referent} (hr : s.referent? b = some r)
    (hfunc : ∀ t params, r' = .func t params → r = .func t params) : s.Enters L (.changed b r') :=
  fun d t params hmem heq ht => h.functions d b t params hmem (hfunc t params heq ▸ hr) ht

end State

lemma Referent.eq_of_setConstStage (h : r.setConstStage stage = .func t params) : r = .func t params := by
  cases r with
  | var | const => cases h
  | func => exact h

lemma Referent.eq_of_setConstType {type : Ty} (h : r.setConstType type = .func t params) : r = .func t params := by
  cases r with
  | var | const => cases h
  | func => exact h

lemma Referent.VarChange.eq_of_func {value : Ty → Prop} (hf : VarChange value f)
    (h : f r = .func t params) : r = .func t params := by
  cases r with
  | var | const => cases hf <;> cases h
  | func => cases hf <;> exact h

/-! ## Steps -/

/-- A run and itself, in orderly states. -/
abbrev orderlyStates (L : List (Node × Env)) : Coupling :=
  .ofRel (W := { s : State // s.Orderly L }) (fun w w' => w.1.Grows w.1.scopes.parents.size w'.1 ∧
      w'.1.scopes.current = w.1.scopes.current ∧ w'.1.resultTypes = w.1.resultTypes)
    (fun w => ⟨.refl _ w.1,rfl,rfl⟩)
    (fun h h' => ⟨h.1.trans (h'.1.mono h.1.size),h'.2.1.trans h.2.1,h'.2.2.trans h.2.2⟩)
    fun w s s' => s = w.1 ∧ s' = w.1

section Steps

variable {L : List (Node × Env)} {w : (orderlyStates L).World}

lemma exists_of_stays (h : w.1.Stays L e) : ∃ w', (orderlyStates L).le w w' ∧ w'.1 = w.1.step e :=
  ⟨⟨w.1.step e,w.2.step h.admits h.enters h.plain⟩,⟨h.grows,h.current,h.resultTypes⟩,rfl⟩

lemma permits_of_stays (h : w.1.Stays L e) : (orderlyStates L).Permits w e e := by
  rintro s s' ⟨rfl,rfl⟩
  obtain ⟨w',hle,hw'⟩ := exists_of_stays h
  exact ⟨w',hle,hw'.symm,hw'.symm⟩

lemma modifyReferent_orderly (h : ∀ r, w.1.referent? b = some r → w.1.Suits (f r) ∧ w.1.Enters L (.changed b (f r))) :
    (orderlyStates L).RunFollows w (modifyReferent b f) (modifyReferent b f) := by
  rintro s s' ⟨rfl,rfl⟩
  change ∃ w', _ ∧ (orderlyStates L).rel w' (w.1.marked b f) (w.1.marked b f) ∧ _
  cases hb : w.1.scopes.bindings[b]? with
  | none =>
    rw [w.1.marked_eq_self hb]
    exact ⟨w,(orderlyStates L).le_refl w,⟨rfl,rfl⟩,trivial⟩
  | some x =>
    obtain ⟨hsuits,henters⟩ := h x.referent (Option.map_eq_some_iff.2 ⟨x,hb,rfl⟩)
    have hlt := (Array.getElem?_eq_some_iff.1 hb).1
    obtain ⟨w',hle,hw'⟩ :=
      exists_of_stays (e := .changed b (f x.referent)) ⟨⟨hlt,hsuits⟩,henters,rfl,rfl,rfl⟩
    rw [w.1.marked_eq_step hb]
    exact ⟨w',hle,⟨hw'.symm,hw'.symm⟩,trivial⟩

end Steps

/-- Names are found where the source says. -/
def orderlyNames (L : List (Node × Env)) : NameCoupling where
  toCoupling := orderlyStates L
  stands w c c' Γ := c = c' ∧ w.1.Stands c Γ
  site n Γ := (n, Γ) ∈ L
  result w := w.1.KnowsResult
  value w := w.1.KnowsValue
  stands_mono := fun {w _ _ _ _} h hst => ⟨hst.1,hst.2.keeps w.2.intact.scopes h.1.toKeeps hst.2.lt⟩
  result_mono h ht := ht.mono (State.extends_of_steps h.1.steps)
  value_mono h ht := ht.mono (State.extends_of_steps h.1.steps)
  result_of_value ht := ht.1
  value_of_result ht hvoid := ⟨ht,hvoid⟩
  basic := fun {w t} ht herror => ⟨w.2.intact.basic t ht,herror⟩
  parts := fun {w t} ht => w.2.intact.parts t ht.1
  begun id _ hexp := permits_of_stays ⟨hexp,trivial,rfl,rfl,rfl⟩
  typed id _ ht := permits_of_stays ⟨ht,trivial,rfl,rfl,rfl⟩
  built := by
    rintro w t hparts herror s s' ⟨rfl,rfl⟩
    obtain ⟨w',hle,hw'⟩ := exists_of_stays (e := .built t) ⟨hparts,trivial,rfl,rfl,rfl⟩
    refine ⟨w',hle,⟨hw'.symm,hw'.symm⟩,?_,herror⟩
    rw [hw']
    exact State.numbers_iff.2 ((TypeRegistry.mem_intern_iff ..).2 (.inr rfl))
  inSize size _ _ _ _ h := ⟨congrArg (Stop.inSize size) h.1,h.2⟩
  binding w b b' := b = b' ∧ b < w.1.scopes.bindings.size
  find := by
    rintro w c _ id span name ⟨Γ,⟨rfl,hstands⟩,hsites⟩ s s' ⟨rfl,rfl⟩
    rw [run_findFrom]
    have hnearest := hstands.nearest? w.2.intact.scopes name
    cases hlookup : w.1.scopes.lookup c name span with
    | error e => exact .stopped (Coupling.Uniform.stopped_refl _ ⟨rfl,rfl⟩)
    | ok b =>
      have hlt := lookup_lt hlookup
      have hb : w.1.scopes.nearest? c name = some b := by
        unfold lookup at hlookup
        split at hlookup
        · next hb => rw [hb, Except.ok.inj hlookup]
        · cases hlookup
      rw [hb] at hnearest
      have hsite : (Node.expr ⟨id,span,.name name⟩, Γ) ∈ L :=
        hsites (_, Γ) (by rw [Expr.located]; exact List.mem_append_right _ (List.mem_singleton_self _))
      have hstays : w.1.Stays L (.referred id b) := by
        refine ⟨hlt,?_,rfl,rfl,rfl⟩
        cases hD : Γ.resolve? name with
        | none => rw [hD] at hnearest; cases hnearest
        | some D =>
          rw [hD] at hnearest
          cases hnearest with
          | some hbinds => exact ⟨span,name,Γ,D,hsite,hD,hbinds⟩
      obtain ⟨w',hle,hw'⟩ := exists_of_stays hstays
      refine .result hle ⟨hw'.symm,hw'.symm⟩ ⟨rfl,?_⟩
      rw [hw']
      exact hlt
  referent := by
    rintro w b _ s s' ⟨rfl,hlt⟩ ⟨rfl,rfl⟩
    obtain ⟨r,hr⟩ := Findings.referent?_isSome (f := w.1.toFindings) hlt
    exact ⟨r,r,hr,hr,(w.2.intact.alike hr).akin⟩

/-! ## Constants -/

section Constants

variable {L : List (Node × Env)} {w : (orderlyNames L).World}

lemma conclude_orderly (ht : w.1.Numbers t) : (orderlyNames L).RunInStep w
      (modifyReferent b fun r => (r.setConstType t).setConstStage stage)
      (modifyReferent b fun r => (r.setConstType t).setConstStage stage) fun _ _ _ => True := by
  refine modifyReferent_orderly fun r hr => ⟨?_,?_⟩
  · exact ((w.2.intact.referents b r hr).setConstType ht).setConstStage stage
  · exact w.2.ledger.enters_changed hr fun _ _ h =>
      Referent.eq_of_setConstType (Referent.eq_of_setConstStage h)

/-- A constant is evaluated as seen from the scope in which it was declared. -/
theorem evaluateWith_orderly {constants : Constants} (hconst : ∀ (w : (orderlyNames L).World) b,
      (orderlyNames L).InStep w (constants b) (constants b) fun _ v v' => v = v') (b : BindingId) :
    (orderlyNames L).InStep w (evaluateWith constants b) (evaluateWith constants b) fun _ v v' => v = v' := by
  have hnames : (orderlyNames L).Names constants constants := by
    refine constantName_inStep ?_
    rintro w b _ s s' type stage ⟨rfl,-⟩ hrel - -
    exact hconst w b s s' hrel
  rintro s s' ⟨rfl,rfl⟩
  rw [evaluateWith, Check.run_bind, Check.run_get]
  dsimp only
  have hblocked := InStep.blocked (K := (orderlyNames L).toCoupling) (w := w)
    (P := fun _ (v v' : Value) => v = v') w.1 w.1 ⟨rfl,rfl⟩
  cases hb : w.1.scopes.bindings[b]? with
  | none => exact hblocked
  | some x =>
    obtain ⟨_,scope,_,referent⟩ := x
    cases referent with
    | const type stage =>
      cases stage with
      | pending =>
        dsimp only
        cases hd : w.1.constants[b]? with
        | none => exact hblocked
        | some d =>
          obtain ⟨x,Γ,hx,hstands,hsub⟩ := w.2.placed b d hd
          obtain rfl := Option.mem_unique hb hx
          have hbegin : (orderlyNames L).RunInStep w (modifyReferent b (·.setConstStage .inProgress))
              (modifyReferent b (·.setConstStage .inProgress)) fun _ _ _ => True := by
            refine modifyReferent_orderly fun r hr => ⟨?_,?_⟩
            · exact (w.2.intact.referents b r hr).setConstStage _
            · exact w.2.ledger.enters_changed hr fun _ _ h => Referent.eq_of_setConstStage h
          obtain ⟨w1,hle,hbegun,-⟩ := hbegin w.1 w.1 ⟨rfl,rfl⟩
          have hsees : (orderlyNames L).Sees w scope scope d.located :=
            ⟨Γ,⟨rfl,hstands⟩,fun x hx => hsub hx⟩
          refine (evaluateFresh_ends hnames (hsees.mono hle) (fun h => h) (fun h => h)
            (fun w stop => permits_of_stays (.stop stop)) ?_ ?_ hbegun).mono hle
            fun _ _ _ _ h => h
          · intro w1 v _
            refine (conclude_orderly ((orderlyNames L).value_type w1 v).1.1).bind fun w2 _ _ _ _ => ?_
            exact .perform (permits_of_stays ⟨trivial,trivial,rfl,rfl,rfl⟩)
          · intro w1 _
            exact conclude_orderly (w1.2.intact.basic _ (by simp [TypeRegistry.basic]))
      | done v => exact InStep.pure rfl w.1 w.1 ⟨rfl,rfl⟩
      | inProgress | failed => exact hblocked
    | var | func => exact hblocked

lemma constantWithin_orderly : ∀ (n : Nat) (w : (orderlyNames L).World) (b : BindingId),
    (orderlyNames L).InStep w (constantWithin n b) (constantWithin n b) fun _ v v' => v = v'
  | 0, _, _ => .blocked
  | n + 1, _, b => evaluateWith_orderly (constantWithin_orderly n) b

lemma constantValue_orderly (w : (orderlyNames L).World) (b : BindingId) :
    (orderlyNames L).InStep w (constantValue b) (constantValue b) fun _ v v' => v = v' := by
  rintro s s' ⟨rfl,rfl⟩
  rw [run_constantValue]
  exact constantWithin_orderly _ w b w.1 w.1 ⟨rfl,rfl⟩

end Constants

/-! ## Trees -/

lemma Decl.self_mem_located (d : Decl) (Γ : Env) : (Node.decl d, Γ) ∈ d.located Γ := by
  cases d with
  | var d =>
    obtain ⟨id,name,nameSpan,mutable,type,init,span⟩ := d
    simp
  | const d =>
    obtain ⟨id,name,nameSpan,type,value,span⟩ := d
    simp
  | func d =>
    obtain ⟨id,name,nameSpan,params,ret,body,span⟩ := d
    simp

lemma decl_eq_of_id {L : List (Node × Env)} (hnodup : (L.map (·.1.id)).Nodup) {d' : Decl}
    {Γ' : Env} (hd : (Node.decl d, Γ) ∈ L) (hd' : (Node.decl d', Γ') ∈ L) (hid : d.id = d'.id) : d = d' := by
  have heq := List.inj_on_of_nodup_map hnodup hd hd' hid
  cases heq
  rfl

/-- The current scope of `s1` was opened in `s`, and declares the names of `F`. -/
structure State.Opened (s s1 : State) (F : Frame) : Prop where
  grows : s.Grows s.scopes.parents.size s1
  later : s.scopes.parents.size ≤ s1.scopes.current
  parent : s1.scopes.parent? s1.scopes.current = some s.scopes.current
  shows : s1.Shows s1.scopes.current F

lemma State.Opened.grow {s s2 : State} (h : s.Opened s1 F)
    (hs1 : s1.scopes.Intact) (hgrows : s1.Grows s1.scopes.parents.size s2)
    (hcurrent : s2.scopes.current = s1.scopes.current) : s.Opened s2 F where
  grows := h.grows.trans (hgrows.mono h.grows.size)
  later := hcurrent ▸ h.later
  parent := by
    rw [hcurrent, hgrows.parents _ hs1.current]
    exact h.parent
  shows := by
    rw [hcurrent]
    exact h.shows.keeps hgrows.toKeeps hs1.current

lemma State.Intact.opened_entered {s : State} (h : s.Intact) : s.Opened (s.step .entered) [] where
  grows := .plain trivial nofun
  later := Nat.le_refl _
  parent := by
    change ((s.scopes.parents.push _)[s.scopes.parents.size]?).join = _
    rw [Array.getElem?_push, if_pos rfl]
    rfl
  shows name := by
    have hnone : (s.step .entered).scopes.find? s.scopes.parents.size name = none := by
      refine Option.eq_none_iff_forall_ne_some.2 fun b hb => ?_
      obtain ⟨⟨x,hx,hscope,-⟩,-⟩ := find?_eq_some_iff.1 hb
      have hlt := h.scopes.bindings x (Array.mem_of_getElem? hx)
      exact Nat.lt_irrefl _ (hscope ▸ hlt)
    change Option.Rel _ _ ((s.step .entered).scopes.find? s.scopes.parents.size name)
    rw [hnone, Frame.accepted?_nil]
    exact .none

lemma State.Orderly.hoists_entered {L : List (Node × Env)} {s : State} (h : s.Orderly L) : (s.step .entered).Hoists L [] := by
  refine .of_orderly (h.step trivial trivial rfl) ?_ fun b d x hd hx => ?_
  · exact Array.size_push _
  · exact Nat.ne_of_lt (h.intact.scopes.bindings x (Array.mem_of_getElem? hx))

lemma State.Opened.left {s : State} (h : s.Opened s1 F) : s.Grows s.scopes.parents.size (s1.step .left) ∧
      (s1.step .left).scopes.current = s.scopes.current := by
  refine ⟨h.grows.trans ((State.Grows.plain (e := .left) trivial nofun).mono h.grows.size),?_⟩
  change (s1.scopes.parent? s1.scopes.current).getD _ = _
  rw [h.parent]
  rfl

lemma State.Opened.declareParam {L : List (Node × Env)} {s : State}
    (h : s.Opened s1 F) (hhoists : s1.Hoists L []) (D : Declarator) (hnode : D.node = none)
    (mutable : Bool) (ht : s1.KnowsValue t) : (∃ e, s.Opened s1 (F ++ [D]) ∧
      (declareIn s1.scopes.current D.name D.span (.initializedVar t mutable)).run s1 = (.error (.error e), s1)) ∨
    ∃ b s2, s.Opened s2 (F ++ [D]) ∧ s2.Hoists L [] ∧ s1.Extends s2 ∧
      s2.resultTypes = s1.resultTypes ∧ (declareIn s1.scopes.current D.name D.span (.initializedVar t mutable)).run s1 =
        (.ok b, s2) := by
  rw [run_declareIn_eq]
  have hlt := hhoists.intact.scopes.current
  cases hvet : s1.scopes.vet s1.scopes.current D.name D.span with
  | error e => exact .inl ⟨e,{ h with shows := h.shows.refused hvet },rfl⟩
  | ok u =>
    let x : Binding := ⟨D.name,s1.scopes.current,D.span,.initializedVar t mutable⟩
    have hsuits : s1.Suits x.referent := by
      refine ⟨?_,fun _ => ⟨t,rfl,ht⟩⟩
      rintro _ ⟨⟩
      exact ht.1.1
    have hgrows : s1.Grows s1.scopes.current (s1.bound x) :=
      .step (e := .bound _ x) (keeps_bound _ x) ⟨rfl,hlt,hsuits⟩
    have hbinds : (s1.bound x).Names D s1.scopes.bindings.size := by
      refine ⟨⟨⟨x,?_,rfl,rfl⟩,fun id hid => ?_⟩,fun _ => ⟨x,t,mutable,(.head _),rfl⟩⟩
      · change (s1.scopes.bindings.push x)[s1.scopes.bindings.size]? = _
        rw [Array.getElem?_push, if_pos rfl]
      · rw [hnode] at hid
        cases hid
    refine .inr ⟨_,s1.bound x,⟨h.grows.trans (hgrows.mono h.later),h.later,h.parent,?_⟩,
      hhoists.bound rfl hsuits,State.extends_of_steps hgrows.steps,rfl,rfl⟩
    exact h.shows.accepted hvet hgrows.toKeeps rfl rfl rfl hbinds

lemma State.Opened.stands {s : State} (h : s.Opened s1 F)
    (hs : s.scopes.Intact) (hs1 : s1.scopes.Intact) (hstands : s.Stands s.scopes.current Γ) :
    s1.Stands s1.scopes.current (F :: Γ) := by
  refine ⟨hs1.current,h.shows,?_⟩
  rw [h.parent]
  exact hstands.keeps hs h.grows.toKeeps hs.current

/-- A run and itself, whenever a construct is examined. -/
def orderly (L : List (Node × Env)) (hnodup : (L.map (·.1.id)).Nodup) : TreeCoupling where
  toNameCoupling := orderlyNames L
  strict h := h
  stops h := h
  alike := by
    rintro w b _ s s' ⟨rfl,hlt⟩ ⟨rfl,rfl⟩
    obtain ⟨r,hr⟩ := Findings.referent?_isSome (f := w.1.toFindings) hlt
    exact ⟨r,r,hr,hr,w.2.intact.alike hr⟩
  results w := w.1.resultTypes
  results_mono h := h.2.2
  resultTypes := by
    rintro w s s' ⟨rfl,rfl⟩
    exact ⟨rfl,rfl,w.2.intact.resultTypes⟩
  opening w w1 F := w.1.Opened w1.1 F ∧ w1.1.Hoists L []
  ended := by
    rintro w s s' stop ⟨rfl,rfl⟩
    obtain ⟨w',hle,hw'⟩ := exists_of_stays (.stop stop)
    refine ⟨w',hle,fun {w0 F} hopen => ⟨hopen.1.grow w.2.intact.scopes hle.1 hle.2.1,?_⟩,hw'.symm,hw'.symm⟩
    rw [hw']
    cases stop <;> exact hopen.2.step trivial trivial rfl fun _ _ hd => .inl hd
  called := by
    rintro w s s' ret hret ⟨rfl,rfl⟩
    have hgrows : w.1.Grows w.1.scopes.parents.size (w.1.step (.called ret)) := .plain hret nofun
    have hext := State.extends_of_steps hgrows.steps
    refine ⟨⟨_,w.2.step (e := .called ret) hret trivial rfl⟩,fun {w0 F} hopen => ⟨hopen.1.grow
      w.2.intact.scopes hgrows rfl,hopen.2.step hret trivial rfl fun _ _ hd => .inl hd⟩,rfl,
      fun t ht => ?_,fun t ht => ?_,rfl,rfl⟩
    · exact State.KnowsResult.mono ht hext
    · exact State.KnowsValue.mono ht hext
  current w := (w.1.scopes.current, w.1.scopes.current)
  current_eq := by
    rintro w s s' ⟨rfl,rfl⟩
    rfl
  current_mono := by
    rintro w w' hle
    rw [hle.2.1]
  constant := by
    rintro w b _ s s' type stage ⟨rfl,-⟩ hrel -
    exact constantValue_orderly w b s s' hrel
  declares w d b b' := b = b' ∧ .introduced d b ∈ w.1.journal
  declares_mono hle h := ⟨h.1,hle.1.journal h.2⟩
  accepted := by
    rintro w d s s' ⟨Γ,-,hsites⟩ ⟨rfl,rfl⟩
    cases hb : w.1.introduces[d.id]? with
    | none => exact .inl ⟨rfl,rfl⟩
    | some b =>
      obtain ⟨d',hid,hmem⟩ := w.2.ledger.introduces _ b hb
      obtain ⟨-,Γ',hd'⟩ := w.2.ledger.declared d' b hmem
      obtain rfl := decl_eq_of_id hnodup hd' (hsites _ (d.self_mem_located Γ)) hid
      exact .inr ⟨b,b,rfl,rfl,rfl,hmem⟩
  constDecl := by
    rintro w d b _ ⟨rfl,-⟩
    exact (constantValue_orderly w b).mono fun _ _ _ _ _ => trivial
  varDecl := by
    rintro w d b _ f ⟨rfl,-⟩ hf
    refine modifyReferent_orderly fun r hr => ⟨?_,?_⟩
    · exact (w.2.intact.referents b r hr).varChange (w.2.intact.basic _ (by simp [TypeRegistry.basic])) hf
    · exact w.2.ledger.enters_changed hr fun _ _ h => hf.eq_of_func h
  signature := by
    rintro w d b _ params ret ⟨rfl,hmem⟩ hlen hparams hresult
    refine modifyReferent_orderly fun r hr => ⟨⟨hresult.1,hparams⟩,?_⟩
    rintro d' t _ hmem' ⟨⟩ -
    obtain ⟨⟩ := w.2.ledger.unique _ _ b hmem hmem'
    exact hlen
  function := by
    rintro w d b _ s s' ⟨rfl,hmem⟩ ⟨rfl,rfl⟩
    have hlt := (w.2.ledger.declared _ b hmem).1
    obtain ⟨r,hr⟩ := Findings.referent?_isSome (f := w.1.toFindings) hlt
    refine ⟨r,r,hr,hr,w.2.intact.alike hr,?_⟩
    rintro t params rfl ht
    exact w.2.ledger.functions d b t params hmem hr ht
  opened w w1 F := w.1.Opened w1.1 F
  opened_of_opening h := h.1
  opened_mono := fun {_ w1 _ _} hopen hle => hopen.grow w1.2.intact.scopes hle.1 hle.2.1
  opened_stands := by
    rintro w w1 F Γ hopen ⟨-,hstands⟩
    exact ⟨rfl,hopen.stands w.2.intact.scopes w1.2.intact.scopes hstands⟩
  returned := by
    rintro w s s' ⟨rfl,rfl⟩
    have hgrows : w.1.Grows w.1.scopes.parents.size (w.1.step .returned) := .plain trivial nofun
    have hext := State.extends_of_steps hgrows.steps
    refine ⟨⟨_,w.2.step (e := .returned) trivial trivial rfl⟩,fun {w0 F} hopen => hopen.grow
      w.2.intact.scopes hgrows rfl,rfl,fun t ht => ?_,fun t ht => ?_,rfl,rfl⟩
    · exact State.KnowsResult.mono ht hext
    · exact State.KnowsValue.mono ht hext
  enter := by
    rintro w s s' ⟨rfl,rfl⟩
    have hgrows : w.1.Grows _ (w.1.step .entered) := .plain trivial nofun
    refine ⟨⟨_,w.2.step (e := .entered) trivial trivial rfl⟩,
      ⟨w.2.intact.opened_entered,w.2.hoists_entered⟩,rfl,⟨rfl,rfl⟩,fun t ht => ?_,fun t ht => ?_⟩
    · exact State.KnowsResult.mono ht (State.extends_of_steps hgrows.steps)
    · exact State.KnowsValue.mono ht (State.extends_of_steps hgrows.steps)
  leave := by
    rintro w w1 F s s' hopen hresults ⟨rfl,rfl⟩
    obtain ⟨hgrows,hcurrent⟩ := hopen.left
    refine ⟨⟨_,w1.2.step (e := .left) trivial trivial rfl⟩,⟨hgrows,hcurrent,hresults⟩,⟨rfl,rfl⟩, fun t ht => ?_⟩
    exact State.KnowsResult.mono ht (State.extends_step _ _)
  declareParam := by
    rintro w w1 F s s' t d mutable hnode ⟨hopen,hhoists⟩ ht ⟨rfl,rfl⟩
    rcases hopen.declareParam hhoists d hnode mutable ht with
      ⟨e,hopen',hrun⟩ | ⟨b,s2,hopen2,hhoists2,hext,hresults,hrun⟩
    · exact .inl ⟨e,⟨hopen',hhoists⟩,hrun,hrun⟩
    · refine .inr ⟨⟨s2,hhoists2.orderly nofun⟩,b,b,s2,s2,⟨hopen2,hhoists2⟩,hresults,⟨rfl,rfl⟩,
        fun t ht => ?_,fun t ht => ?_,hrun,hrun⟩
      · exact State.KnowsResult.mono ht hext
      · exact State.KnowsValue.mono ht hext
  declareNames := by
    rintro w w1 F Γ s s' decls ⟨hopen,hhoists⟩ ⟨-,hstands⟩ hsites ⟨rfl,rfl⟩
    obtain ⟨s2,hs2,hhoists2,hshows2,hgrows2,hcurrent2,hparents2⟩ :=
      (hhoists.mono decls).declareAll decls hopen.shows (List.Subset.refl _) fun d hd => ⟨_,hsites d hd _ (d.self_mem_located _)⟩
    have hopen2 : w.1.Opened s2 (F ++ decls.map Decl.declarator) := by
      refine ⟨hopen.grows.trans (hgrows2.mono hopen.later),hcurrent2 ▸ hopen.later,?_,hcurrent2 ▸ hshows2⟩
      rw [hcurrent2, parent?, hparents2]
      exact hopen.parent
    have hstands2 := hopen2.stands w.2.intact.scopes hhoists2.intact.scopes hstands
    have horderly : s2.Orderly L := by
      refine hhoists2.orderly fun c hc => ⟨_,hstands2,fun x hx => ?_⟩
      exact hsites _ hc x (by rwa [Decl.located])
    have hext := State.extends_of_steps hgrows2.steps
    have hresults : s2.resultTypes = w1.1.resultTypes := by
      rw [← hs2]
      exact resultTypes_declareNames _ decls w1.1
    refine ⟨⟨s2,horderly⟩,hopen2,hresults,⟨hs2,hs2⟩,fun t ht => ?_,fun t ht => ?_⟩
    · exact State.KnowsResult.mono ht hext
    · exact State.KnowsValue.mono ht hext

/-! ## Modules -/

lemma State.orderly_initial (L : List (Node × Env)) : State.initial.Orderly L where
  intact := intact_initial
  ledger := by
    refine ⟨?_,?_,?_,?_,?_⟩ <;> simp [initial]
  placed := by simp [initial]

lemma Module.hoists_initial (m : Module) : State.initial.Hoists m.located [] ∧ State.initial.Shows 0 [] := by
  refine ⟨.of_orderly (State.orderly_initial _) rfl (by simp [State.initial]),fun name => ?_⟩
  have hnone : State.initial.scopes.find? 0 name = none := by
    simp [State.initial, initial, find?]
  rw [Frame.accepted?_nil, hnone]
  exact .none

lemma Module.located_subset {m : Module} (hd : d ∈ m.decls) : d.located m.env ⊆ m.located :=
  fun _ hx => List.mem_flatMap.2 ⟨d,hd,hx⟩

/-- The check of a module takes admitted steps only, and ends in an orderly state. -/
theorem Module.run_orderly (m : Module) (hnodup : (m.nodes.map Node.id).Nodup) :
    (m.run State.initial).2.Orderly m.located ∧ Steps State.Admits .initial (m.run State.initial).2 := by
  have hids : (m.located.map (·.1.id)).Nodup := by
    rwa [← m.map_fst_located, List.map_map] at hnodup
  obtain ⟨hhoists,hshows⟩ := m.hoists_initial
  obtain ⟨s1,hs1,hhoists1,hshows1,hgrows1,hcurrent1,hparents1⟩ :=
    (hhoists.mono m.decls).declareAll m.decls hshows (List.Subset.refl _)
      fun d hd => ⟨m.env,m.located_subset hd (d.self_mem_located _)⟩
  have hstands : s1.Stands s1.scopes.current m.env := by
    refine ⟨hhoists1.intact.scopes.current,hcurrent1 ▸ hshows1,?_⟩
    rw [hcurrent1, parent?, hparents1]
    rfl
  have horderly : s1.Orderly m.located :=
    hhoists1.orderly fun c hc => ⟨_,hstands,fun x hx => m.located_subset hc (by rwa [Decl.located])⟩
  let K := orderly m.located hids
  let w1 : K.World := ⟨s1,horderly⟩
  have hhere (d) (hd : d ∈ m.decls) : K.Here w1 d.located :=
    ⟨m.env,⟨rfl,hstands⟩,fun x hx => m.located_subset hd hx⟩
  have hrest : K.RunInStep w1 ((m.decls.forM fun d => reported (signature d)) >>= fun _ =>
        m.checkOrder.forM fun d => reported d.check)
      ((m.decls.forM fun d => reported (signature d)) >>= fun _ =>
        m.checkOrder.forM fun d => reported d.check) fun w' _ _ => K.le w1 w' := by
    refine ((signatures_inStep _ hhere).mono fun _ _ _ hle _ => hle).bind fun w2 _ _ _ hle2 => ?_
    refine RunInStep.forM (G := K.le w1) m.checkOrder hle2 fun d hd w hle => ?_
    have hd' := m.checkOrder_perm.mem_iff.1 hd
    exact (TreeCoupling.reported_inStep (d.check_inStep ((hhere d hd').mono hle))).mono fun _ _ _ hle' _ => K.le_trans hle hle'
  obtain ⟨w2,-,⟨hs2,-⟩,hle2⟩ := hrest s1 s1 ⟨rfl,rfl⟩
  have hrun : (m.run State.initial).2 = w2.1 := by
    rw [← hs2, ← hs1]
    rfl
  rw [hrun]
  exact ⟨w2.2,hgrows1.steps.trans hle2.1.steps⟩

end Opal
