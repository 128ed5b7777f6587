import Opal.Proofs.TwinStates

/-!
# Two runs keep in step while they examine one declaration

Two runs that examine the same declaration find the same types and report the same errors, apart from the constants of the
module, which each run evaluates when it needs them.
-/

namespace Opal

open Coupling (InStep RunInStep)
open Option

variable {stage : ConstStage} {d : Decl} {r : Referent} {w2 : Ties} {value : Ty → Prop}

/-- More corresponds than before, and the runs are in the same scopes. -/
structure Ties.Le (w w' : Ties) : Prop extends w.Grows w' where
  here : w'.here = w.here
  outer : w'.outer = w.outer
  results : w'.results = w.results

lemma Ties.Le.refl (w : Ties) : w.Le w :=
  ⟨.refl w,rfl,rfl,rfl⟩

lemma Ties.Le.trans {w1 w3 : Ties} (h : w1.Le w2) (h' : w2.Le w3) : w1.Le w3 :=
  ⟨h.toGrows.trans h'.toGrows,h'.here.trans h.here,h'.outer.trans h.outer,h'.results.trans h.results⟩

/-- The current scopes of the second world were opened in the first one. -/
structure Ties.Opened (w w1 : Ties) : Prop extends w.Grows w1 where
  outer : w1.outer = w.here :: w.outer
  inner : w1.here.1 ≠ 0
  tied : w1.scopes w1.here.1 w1.here.2

lemma Ties.Opened.mono {w w1 : Ties} (h : w.Opened w1) (hle : w1.Le w2) : w.Opened w2 where
  toGrows := h.toGrows.trans hle.toGrows
  outer := hle.outer.trans h.outer
  inner := hle.here ▸ h.inner
  tied := by
    rw [hle.here]
    exact hle.scopes _ _ h.tied

/-! ## Names -/

namespace State.Steady

variable {s0 t : State} {base : List String} {name : String} {b : BindingId} {type : Option Ty} {stage : ConstStage}

lemma ne_inProgress (h : s0.Steady t base) (hb : t.scopes.find? 0 name = some b)
    (hr : t.referent? b = some (.const type stage)) : stage ≠ .inProgress := by
  rintro rfl
  have hglobal := (global?_eq_some hb).trans hr
  obtain rfl : type = none := h.tracks.stages _ _ _ hglobal
  exact h.quiet name hglobal

end State.Steady

namespace Setting

variable {S : Setting} {w : Ties} {s s' : State} {b b' : BindingId}

section

variable (h : S.Twin w s s') (hb : w.bindings b b')
include h hb

/-- Corresponding names are bound to the same, apart from the stages of constants. -/
theorem Twin.alike : ∃ r r', s.referent? b = some r ∧ s'.referent? b' = some r' ∧ r.Alike (fun _ => True) (fun _ => True) r' := by
  cases h.paired b b' hb with
  | @constant name type type' stage stage' hb hb' hr hr' =>
    obtain ⟨codes,hsteady,hsteady'⟩ := h.steady
    exact ⟨_,_,hr,hr',.const type type' (iff_of_false (hsteady.ne_inProgress hb hr) (hsteady'.ne_inProgress hb' hr'))⟩
  | @shared x x' hx =>
    refine ⟨_,_,State.referent?_eq_some hx.left,State.referent?_eq_some hx.right,?_⟩
    rw [hx.referent]
    exact hx.alike

/-- What was bound since the start in one run was so in the other, and is bound to the same. -/
theorem Twin.shared_of_new (hnew : S.left.state.referent? b = none) :
    S.right.state.referent? b' = none ∧ ∃ x x', Shared S.nodes w s s' b b' x x' := by
  have hold (name : String) (hname : S.left.state.scopes.find? 0 name = some b) : False := by
    obtain ⟨⟨x,hx,-⟩,-⟩ := ScopeTree.find?_eq_some_iff.1 hname
    cases hnew.symm.trans (State.referent?_eq_some hx)
  refine ⟨?_,?_⟩
  · rcases h.origin b b' hb with ⟨name,hname,-⟩ | ⟨-,hnew'⟩
    · exact (hold name hname).elim
    · exact hnew'
  · cases h.paired b b' hb with
    | @constant name _ _ _ _ hname => exact (hold name ((h.left.find? name).symm.trans hname)).elim
    | shared hx => exact ⟨_,_,hx⟩

lemma Twin.new_of_const {x x' : Binding}
    (hx : Shared S.nodes w s s' b b' x x') (hconst : x.referent.isConst = true) : S.left.state.referent? b = none := by
  rcases h.origin b b' hb with ⟨name,hname,-⟩ | ⟨hnew,-⟩
  · obtain ⟨⟨y,hy,hscope,-⟩,-⟩ := ScopeTree.find?_eq_some_iff.1 ((h.left.find? name).trans hname)
    obtain rfl := mem_unique hx.left hy
    exact absurd hscope (hx.const hconst).1
  · exact hnew

end

/-- Two runs that examine the same, in states as `Q` says. -/
abbrev twinStates (S : Setting) (Q : State → State → Prop) : Coupling :=
  .ofRel (W := Ties) Ties.Le Ties.Le.refl Ties.Le.trans fun w s s' => S.Twin w s s' ∧ Q s s'

section Names

variable {Q Q' : State → State → Prop}

lemma ends_twinStates {α α' : Type} {P : Ties → α → α' → Prop} {r : Except Stop α × State} {r' : Except Stop α' × State}
    (h : (S.twinStates Q).Ends w P r r') (hQ : ∀ s s', Q s s' → Q' s s') : (S.twinStates Q').Ends w P r r' := by
  cases h with
  | result hle hrel h => exact .result hle ⟨hrel.1,hQ _ _ hrel.2⟩ h
  | stopped h =>
    obtain ⟨he,w',hle,hrel⟩ := h
    exact .stopped ⟨he,w',hle,hrel.1,hQ _ _ hrel.2⟩
  | alone h => exact h.elim

lemma permits_note (hQ : ∀ {s t s' t'}, State.Noted s t → State.Noted s' t' → Q s s' → Q t t')
    {e e' : Event} (he : e.isNote = true) (he' : e'.isNote = true) : (S.twinStates Q).Permits w e e' := by
  rintro s s' ⟨htwin,hstates⟩
  have hnoted := s.noted_step he
  have hnoted' := s'.noted_step he'
  exact ⟨w,.refl w,htwin.noted hnoted hnoted',hQ hnoted hnoted' hstates⟩

/-- Names refer to corresponding bindings. -/
def twinNames (S : Setting) (Q : State → State → Prop)
    (hQ : ∀ {s t s' t'}, State.Noted s t → State.Noted s' t' → Q s s' → Q t t') :
    NameCoupling where
  toCoupling := S.twinStates Q
  stands w c c' _ := w.scopes c c'
  site n Γ := (n, Γ) ∈ S.nodes
  stands_mono hle hst := hle.scopes _ _ hst
  begun id _ _ := permits_note hQ rfl rfl
  typed id _ _ := permits_note hQ rfl rfl
  built := by
    intro w t _ _ s s' hrel
    have hpermits : (S.twinStates Q).Permits w (.built t) (.built t) := permits_note hQ rfl rfl
    obtain ⟨w',hle,hrel'⟩ := hpermits s s' hrel
    exact ⟨w',hle,hrel',trivial⟩
  inSize size _ _ _ _ h := ⟨congrArg (Stop.inSize size) h.1,h.2⟩
  binding w b b' := w.bindings b b'
  find := by
    rintro w c c' id span name ⟨Γ,hstands,-⟩ s s' ⟨htwin,hstates⟩
    rw [run_findFrom, run_findFrom, ScopeTree.lookup, ScopeTree.lookup]
    have hnearest := htwin.nearest? name c hstands
    generalize s.scopes.nearest? c name = b, s'.scopes.nearest? c' name = b' at hnearest
    cases hnearest with
    | none => exact .stopped (Coupling.Uniform.stopped_refl _ ⟨htwin,hstates⟩)
    | @some b b' hb =>
      have hnoted : s.Noted (s.resolved id b) := s.noted_step rfl
      have hnoted' : s'.Noted (s'.resolved id b') := s'.noted_step rfl
      exact .result (Ties.Le.refl w) ⟨htwin.noted hnoted hnoted',hQ hnoted hnoted' hstates⟩ hb
  referent := by
    rintro w b b' s s' hb ⟨htwin,-⟩
    obtain ⟨r,r',hr,hr',halike⟩ := htwin.alike hb
    exact ⟨r,r',hr,hr',halike.akin⟩

end Names

end Setting

/-! ## Constants -/

/-- The changes that the evaluation of a constant makes. -/
structure Referent.ConstChange (f : Referent → Referent) : Prop where
  const : ∀ type stage, ∃ type' stage', f (.const type stage) = .const type' stage' ∧ stage' ≠ .pending
  other : ∀ r, r.isConst = false → f r = r

namespace Referent.ConstChange

variable {f : Referent → Referent}

lemma begun : ConstChange (·.setConstStage .inProgress) where
  const type _ := ⟨type,.inProgress,rfl,by simp⟩
  other r hr := by
    cases r with
    | const => cases hr
    | var | func => rfl

lemma concluded (t : Ty) (hstage : stage ≠ .pending) : ConstChange fun r => (r.setConstType t).setConstStage stage where
  const _ _ := ⟨some t,stage,rfl,hstage⟩
  other r hr := by
    cases r with
    | const => cases hr
    | var | func => rfl

section

variable (h : ConstChange f)
include h

lemma ne_pending (r : Referent) (type : Option Ty) : f r ≠ .const type .pending := by
  intro heq
  cases hr : r.isConst with
  | false =>
    rw [h.other r hr] at heq
    rw [heq] at hr
    cases hr
  | true =>
    cases r with
    | var | func => cases hr
    | const type0 stage0 =>
      obtain ⟨type',stage',hf,hne⟩ := h.const type0 stage0
      obtain ⟨-,rfl⟩ := Referent.const.inj (hf.symm.trans heq)
      exact hne rfl

lemma word_eq (r : Referent) : (f r).word = r.word := by
  cases r with
  | var | func => rw [h.other _ rfl]
  | const type stage =>
    obtain ⟨type',stage',hf,-⟩ := h.const type stage
    rw [hf]
    rfl

lemma alike {result : Ty → Prop} (hr : r.Alike result value r) : (f r).Alike result value (f r) := by
  cases r with
  | var | func => rwa [h.other _ rfl]
  | const type stage =>
    obtain ⟨type',stage',hf,-⟩ := h.const type stage
    rw [hf]
    exact .const _ _ .rfl

lemma fits (hr : d.Fits r) : d.Fits (f r) := by
  cases r with
  | var | func => rwa [h.other _ rfl]
  | const type stage =>
    obtain ⟨type',stage',hf,-⟩ := h.const type stage
    rw [hf]
    cases d with
    | const => rfl
    | var => cases hr
    | func =>
      obtain ⟨t,params,heq,-⟩ := hr
      cases heq

lemma bounded {n : Nat} {s : State} (hs : Bounded n s) (b : BindingId) : Bounded n (s.marked b f) := by
  obtain ⟨l,hmem,hlen⟩ := hs
  refine ⟨l,fun a hr => hmem a ?_,hlen⟩
  rw [referent?_marked] at hr
  split at hr
  · obtain ⟨r,-,hr⟩ := map_eq_some_iff.1 hr
    exact absurd hr (h.ne_pending r none)
  · exact hr

end

end Referent.ConstChange

lemma Bounded.noted {n : Nat} {s t : State} (h : Bounded n s) (ht : s.Noted t) : Bounded n t := by
  obtain ⟨l,hmem,hlen⟩ := h
  refine ⟨l,fun a hr => hmem a ?_,hlen⟩
  rwa [Findings.referent?, ht.scopes] at hr

lemma Bounded.succ {n : Nat} {s : State} (h : Bounded n s) : Bounded (n + 1) s := by
  obtain ⟨l,hmem,hlen⟩ := h
  exact ⟨l,hmem,Nat.lt_succ_of_lt hlen⟩

namespace Setting

section Constants

variable {S : Setting} {w : Ties} {s s' : State} {b b' : BindingId} {n n' : Nat} {f : Referent → Referent}

lemma Twin.constMarked (h : S.Twin w s s') (hb : w.bindings b b')
    (hnew : S.left.state.referent? b = none) (hf : Referent.ConstChange f) : S.Twin w (s.marked b f) (s'.marked b' f) := by
  obtain ⟨hnew',x,x',hx⟩ := h.shared_of_new hb hnew
  exact h.marked hb hx (.inl hnew) (.inl hnew') (hf.word_eq _) (hf.alike hx.alike)
    (fun type heq => absurd heq (hf.ne_pending _ type)) fun d _ => hf.fits

/-- The two runs, each with as many constants left as its evaluations may nest. -/
def nesting (S : Setting) (n n' : Nat) : NameCoupling :=
  S.twinNames (fun s s' => Bounded n s ∧ Bounded n' s') fun ht ht' h => ⟨h.1.noted ht,h.2.noted ht'⟩

lemma modifyReferent_nesting (hb : w.bindings b b') (hnew : S.left.state.referent? b = none) (hf : Referent.ConstChange f) :
    (S.nesting n n').RunFollows w (modifyReferent b f) (modifyReferent b' f) := by
  rintro s s' ⟨htwin,hs,hs'⟩
  exact ⟨w,.refl w,⟨htwin.constMarked hb hnew hf,hf.bounded hs b,hf.bounded hs' b'⟩,trivial⟩

lemma permits_stop (stop : Stop) : (S.nesting n n').Permits w stop.event stop.event := by
  rintro s s' ⟨htwin,hs,hs'⟩
  refine ⟨w,.refl w,htwin.ended stop,?_⟩
  cases stop <;> exact ⟨hs,hs'⟩

/-- A constant has the same value in both runs, or in none. -/
theorem constantWithin_ends (hs0 : S.hoisted.Unevaluated) : ∀ (n n' : Nat) {w : Ties} {b b' : BindingId}
    {s s' : State} {type : Option Ty} {stage : ConstStage}, w.bindings b b' → S.Twin w s s' →
    Bounded n s → Bounded n' s' → s.referent? b = some (.const type stage) →
      (S.nesting n n').Ends w (fun _ v v' => v = v') ((constantWithin n b).run s) ((constantWithin n' b').run s')
  | 0, _, _, _, _, _, _, _, _, _, _, hs, _, _ => by
    obtain ⟨m,hm⟩ := hs.exists_succ
    cases hm
  | n + 1, n', w, b, b', s, s', type, stage, hb, htwin, hs, hs', hr => by
    obtain ⟨n',rfl⟩ := hs'.exists_succ
    have hrel : (S.nesting (n + 1) (n' + 1)).rel w s s' := ⟨htwin,hs,hs'⟩
    cases htwin.paired b b' hb with
    | @constant name _ _ _ _ hname hname' hr hr' =>
      -- a constant of the module has the value that the rules give it, in both runs
      obtain ⟨codes,hsteady,hsteady'⟩ := htwin.steady
      obtain ⟨t,l,c,hrun,hsettles,hkeep⟩ := hsteady.constantWithin hs0 hname hr hs
      obtain ⟨t',l',c',hrun',hsettles',hkeep'⟩ := hsteady'.constantWithin hs0 hname' hr' hs'
      have hrel1 : (S.nesting (n + 1) (n' + 1)).rel w t t' :=
        ⟨htwin.settles hsettles hsettles' hkeep hkeep',hsettles.bounded hs,hsettles'.bounded hs'⟩
      rw [hrun, hrun']
      cases S.hoisted.verdict name with
      | some v => exact .result (Ties.Le.refl w) hrel1 rfl
      | none => exact .stopped (Coupling.Uniform.stopped_refl _ hrel1)
    | @shared x x' hx =>
      have hreferent : x.referent = .const type stage :=
        mem_unique (State.referent?_eq_some hx.left) hr
      have hreferent' : x'.referent = .const type stage := hx.referent.trans hreferent
      rw [constantWithin, constantWithin]
      cases stage with
      | done v =>
        rw [run_evaluateWith_done hx.left hreferent, run_evaluateWith_done hx.right hreferent']
        exact .result (Ties.Le.refl w) hrel rfl
      | inProgress =>
        rw [run_evaluateWith_blocked hx.left hreferent (.inl rfl), run_evaluateWith_blocked hx.right hreferent' (.inl rfl)]
        exact .stopped (Coupling.Uniform.stopped_refl _ hrel)
      | failed =>
        rw [run_evaluateWith_blocked hx.left hreferent (.inr rfl), run_evaluateWith_blocked hx.right hreferent' (.inr rfl)]
        exact .stopped (Coupling.Uniform.stopped_refl _ hrel)
      | pending =>
        have hconst : x.referent.isConst = true := by rw [hreferent]; rfl
        obtain ⟨-,-,d,Γ,hd,hd',hsub⟩ := hx.const hconst
        obtain rfl := hx.pending type hreferent
        have hnew := htwin.new_of_const hb hx hconst
        have hr' : s'.referent? b' = some (.const none .pending) :=
          (State.referent?_eq_some hx.right).trans (congrArg some hreferent')
        rw [run_evaluateWith_pending hx.left hreferent hd, run_evaluateWith_pending hx.right hreferent' hd']
        have hnames : (S.nesting n n').Names (constantWithin n) (constantWithin n') :=
          constantName_inStep fun hb hrel hr _ =>
            constantWithin_ends hs0 n n' hb hrel.1 hrel.2.1 hrel.2.2 hr
        have hsees : (S.nesting n n').Sees w x.scope x'.scope d.located :=
          ⟨Γ,hx.scope,fun y hy => hsub hy⟩
        have hbegun : (S.nesting n n').rel w (s.begun b) (s'.begun b') :=
          ⟨htwin.constMarked hb hnew .begun,hs.begun hr,hs'.begun hr'⟩
        have hends := evaluateFresh_ends hnames hsees (fun h => h) (fun h => h)
          (fun _ e => permits_stop e) (fun w1 v hle => ?_) (fun w1 hle => ?_) hbegun
        · exact ends_twinStates hends fun _ _ h => ⟨h.1.succ,h.2.succ⟩
        · refine (modifyReferent_nesting (hle.bindings b b' hb) hnew (.concluded v.type (by simp))).bind fun w2 _ _ _ _ => ?_
          exact .perform (permits_note (fun ht ht' h => ⟨h.1.noted ht,h.2.noted ht'⟩) rfl rfl)
        · exact modifyReferent_nesting (hle.bindings b b' hb) hnew (.concluded .error (by simp))

lemma constantValue_ends (hs0 : S.hoisted.Unevaluated) {type : Option Ty}
    (hb : w.bindings b b') (htwin : S.Twin w s s') (hr : s.referent? b = some (.const type stage)) :
    (S.twinStates fun _ _ => True).Ends w (fun _ v v' => v = v') ((constantValue b).run s) ((constantValue b').run s') := by
  rw [run_constantValue, run_constantValue]
  exact ends_twinStates (constantWithin_ends hs0 _ _ hb htwin (bounded_size s) (bounded_size s') hr) fun _ _ _ => trivial

end Constants

/-! ## Trees -/

section Trees

variable {S : Setting} {w w1 : Ties} {s s' : State} {b b' : BindingId} {f : Referent → Referent}

lemma Twin.vet (h : S.Twin w s s') (name : String) (span : Span) :
    s'.scopes.vet s'.scopes.current name span = s.scopes.vet s.scopes.current name span := by
  have hhere := h.lawful.around w.here (.head _)
  rw [← h.shares.current] at hhere
  have hname := h.shares.names hhere name
  unfold ScopeTree.vet
  generalize s.scopes.find? s.scopes.current name = b, s'.scopes.find? s'.scopes.current name = b' at hname
  cases hname with
  | none | some => rfl

lemma Twin.declared_marked (h : S.Twin w s s') (hd : w.declares d b b') (hword : ∀ r, d.Fits r → (f r).word = r.word)
    (halike : ∀ r, d.Fits r → (f r).Alike (fun _ => True) (fun _ => True) (f r))
    (hconst : ∀ r, d.Fits r → (f r).isConst = false)
    (hfits : ∀ r, d.Fits r → d.Fits (f r)) : S.Twin w (s.marked b f) (s'.marked b' f) := by
  obtain ⟨hb,hnew,hnew',r,hr,hfit⟩ := h.declares d b b' hd
  obtain ⟨-,x,x',hx⟩ := h.shared_of_new hb hnew
  obtain rfl := mem_unique (State.referent?_eq_some hx.left) hr
  refine h.marked hb hx (.inl hnew) (.inl hnew') (hword _ hfit) (halike _ hfit) (fun type heq => ?_) fun e he hr => ?_
  · have hfalse := hconst _ hfit
    rw [heq] at hfalse
    cases hfalse
  · obtain rfl := h.lawful.declares hd he
    exact hfits _ hr

lemma Twin.alike_varChange (hf : Referent.VarChange value f) {d : VarDecl} (hr : (Decl.var d).Fits r) :
    (f r).word = r.word ∧ (f r).Alike (fun _ => True) (fun _ => True) (f r) ∧
      (f r).isConst = false ∧ (Decl.var d).Fits (f r) := by
  cases r with
  | const | func => cases hr
  | var type mutable stage =>
    cases hf with
    | initializing => exact ⟨rfl,.var mutable (by simp),rfl,rfl⟩
    | @initialized t ht => exact ⟨rfl,.var mutable fun _ => ⟨t,rfl,trivial⟩,rfl,rfl⟩
    | failed => exact ⟨rfl,.var mutable (by simp),rfl,rfl⟩

lemma Twin.declareNames (hnodup : (S.nodes.map (·.1.id)).Nodup) : ∀ (decls : List Decl) {w : Ties}
    {s s' : State}, S.Twin w s s' → w.here.1 ≠ 0 → (∀ d ∈ decls, ∃ Γ, d.located Γ ⊆ S.nodes) → ∃ w', w.Le w' ∧
        S.Twin w' ((decls.forM (declareOne w.here.1)).run s).2 ((decls.forM (declareOne w.here.2)).run s').2
  | [], w, _, _, h, _, _ => ⟨w,.refl w,h⟩
  | d :: decls, w, s, s', h, hlocal, hsites => by
    obtain ⟨Γ,hsub⟩ := hsites d (.head _)
    have hstep : ∃ w1, w.Le w1 ∧ S.Twin w1 ((declareOne w.here.1 d).run s).2 ((declareOne w.here.2 d).run s').2 := by
      have hcurrent : s.scopes.current = w.here.1 := congrArg Prod.fst h.shares.current
      have hcurrent' : s'.scopes.current = w.here.2 := congrArg Prod.snd h.shares.current
      have hvet := h.vet d.name d.nameSpan
      rw [hcurrent, hcurrent'] at hvet
      rw [declareOne, declareOne, run_reported, run_reported, Check.run_bind, Check.run_bind,
        run_declareIn_eq, run_declareIn_eq, hvet]
      cases s.scopes.vet w.here.1 d.name d.nameSpan with
      | error e => exact ⟨w,.refl w,h.ended (.error e)⟩
      | ok u =>
        refine ⟨_,?_,h.admitted hnodup hlocal d.name d.nameSpan d.referent (some d) ?_ ?_ ?_ ?_⟩
        · exact ⟨⟨fun _ _ h => h,fun _ _ => .inl,fun _ _ _ => .inl⟩,rfl,rfl,rfl⟩
        · cases d with
          | var d => exact .var d.mutable (by simp)
          | const => exact .const _ _ .rfl
          | func => exact .func (by simp) (by simp)
        · intro type heq
          cases d with
          | const => exact (Referent.const.inj heq).1.symm
          | var | func => cases heq
        · rintro _ ⟨⟩
          refine ⟨⟨Γ,hsub (d.self_mem_located Γ)⟩,?_⟩
          cases d with
          | var | const => rfl
          | func => exact ⟨.error,[],rfl,by simp⟩
        · intro hconst
          cases d with
          | const c => exact ⟨c,Γ,rfl,by rwa [Decl.located] at hsub⟩
          | var | func => cases hconst
    obtain ⟨w1,hle,h1⟩ := hstep
    have hrest := declareNames hnodup decls h1 (hle.here ▸ hlocal) fun d' hd' => hsites d' (.tail _ hd')
    rw [hle.here] at hrest
    obtain ⟨w2,hle2,h2⟩ := hrest
    exact ⟨w2,hle.trans hle2,h2⟩

/-- Two runs that examine the same. -/
def twins (S : Setting) (hs0 : S.hoisted.Unevaluated) (hnodup : (S.nodes.map (·.1.id)).Nodup) : TreeCoupling where
  toNameCoupling := S.twinNames (fun _ _ => True) fun _ _ _ => trivial
  strict h := h
  stops h := h
  current w := w.here
  current_eq hrel := hrel.1.shares.current
  current_mono hle := hle.here
  constant hb hrel hr := constantValue_ends hs0 hb hrel.1 hr
  alike hb hrel := hrel.1.alike hb
  results w := w.results
  results_mono hle := hle.results
  resultTypes hrel := ⟨hrel.1.results.1,hrel.1.results.2,fun _ _ => trivial⟩
  opening w w1 _ := w.Opened w1
  ended := fun {w _ _} stop hrel => ⟨w,.refl w,fun h => h,hrel.1.ended stop,trivial⟩
  called := by
    rintro w s s' ret - ⟨htwin,-⟩
    obtain ⟨codes,hsteady,hsteady'⟩ := htwin.steady
    have hcalled : S.Twin { w with results := ret :: w.results } (s.step (.called ret)) (s'.step (.called ret)) := by
      refine htwin.update (show (s.step (.called ret)).scopes = _ from rfl)
        (show (s'.step (.called ret)).scopes = _ from rfl) rfl rfl rfl rfl
        ⟨congrArg (ret :: ·) htwin.results.1,congrArg (ret :: ·) htwin.results.2⟩ ⟨codes,?_,?_⟩
      · exact hsteady.alongside (State.alongside_of_bindings rfl rfl) rfl
      · exact hsteady'.alongside (State.alongside_of_bindings rfl rfl) rfl
    exact ⟨{ w with results := ret :: w.results },fun hopen => ⟨⟨hopen.scopes,hopen.bindings,
      hopen.declares⟩,hopen.outer,hopen.inner,hopen.tied⟩,rfl,fun _ h => h,fun _ h => h,
      hcalled,trivial⟩
  declares w d b b' := w.declares d b b'
  declares_mono hle h := hle.declares _ _ _ h
  accepted := by
    rintro w d s s' ⟨Γ,-,hsites⟩ ⟨htwin,-⟩
    have hrel := htwin.introduces d Γ (hsites _ (d.self_mem_located Γ))
    generalize s.introduces[d.id]? = b, s'.introduces[d.id]? = b' at hrel
    cases hrel with
    | none => exact .inl ⟨rfl,rfl⟩
    | @some b b' hd => exact .inr ⟨b,b',rfl,rfl,hd⟩
  constDecl := by
    rintro w d b b' hd s s' ⟨htwin,-⟩
    obtain ⟨hb,-,-,r,hr,hfits⟩ := htwin.declares _ b b' hd
    cases r with
    | var | func => cases hfits
    | const type stage =>
      exact (constantValue_ends hs0 hb htwin hr).mono (.refl w) fun _ _ _ _ _ => trivial
  varDecl := by
    rintro w d b b' f hd hf s s' ⟨htwin,-⟩
    refine ⟨w,.refl w,⟨htwin.declared_marked hd (fun r hr => ?_) (fun r hr => ?_) (fun r hr => ?_)
      fun r hr => ?_,trivial⟩,trivial⟩
    · exact (Twin.alike_varChange hf hr).1
    · exact (Twin.alike_varChange hf hr).2.1
    · exact (Twin.alike_varChange hf hr).2.2.1
    · exact (Twin.alike_varChange hf hr).2.2.2
  signature := by
    rintro w d b b' params ret hd hlen - - s s' ⟨htwin,-⟩
    refine ⟨w,.refl w,⟨htwin.declared_marked hd (fun r hr => ?_) (fun r hr => ?_) (fun r hr => rfl)
      fun r hr => ?_,trivial⟩,trivial⟩
    · obtain ⟨t,ps,rfl,-⟩ := hr
      rfl
    · exact .func (fun _ => trivial) fun _ _ => trivial
    · exact ⟨_,_,rfl,fun _ => hlen⟩
  function := by
    rintro w d b b' s s' hd ⟨htwin,-⟩
    obtain ⟨hb,-,-,r,hr,t,params,rfl,harity⟩ := htwin.declares _ b b' hd
    obtain ⟨r1,r',hr1,hr',halike⟩ := htwin.alike hb
    obtain rfl := mem_unique hr hr1
    refine ⟨_,r',hr,hr',halike,?_⟩
    rintro _ _ ⟨⟩
    exact harity
  opened w w1 _ := w.Opened w1
  opened_of_opening h := h
  opened_mono h hle := h.mono hle
  opened_stands h _ := h.tied
  returned := by
    rintro w s s' ⟨htwin,-⟩
    obtain ⟨codes,hsteady,hsteady'⟩ := htwin.steady
    have hreturned : S.Twin { w with results := w.results.tail } (s.step .returned) (s'.step .returned) := by
      refine htwin.update (show (s.step .returned).scopes = _ from rfl)
        (show (s'.step .returned).scopes = _ from rfl) rfl rfl rfl rfl
        ⟨congrArg List.tail htwin.results.1,congrArg List.tail htwin.results.2⟩ ⟨codes,?_,?_⟩
      · exact hsteady.alongside (State.alongside_of_bindings rfl rfl) rfl
      · exact hsteady'.alongside (State.alongside_of_bindings rfl rfl) rfl
    exact ⟨{ w with results := w.results.tail },fun hopen => ⟨⟨hopen.scopes,hopen.bindings,
      hopen.declares⟩,hopen.outer,hopen.inner,hopen.tied⟩,rfl,fun _ h => h,fun _ h => h,
      hreturned,trivial⟩
  enter := by
    rintro w s s' ⟨htwin,-⟩
    refine ⟨{ w with
      scopes := fun c c' => w.scopes c c' ∨ c = s.scopes.parents.size ∧ c' = s'.scopes.parents.size
      here := (s.scopes.parents.size, s'.scopes.parents.size)
      outer := w.here :: w.outer },⟨⟨fun _ _ h => .inl h,fun _ _ h => h,fun _ _ _ h => h⟩,rfl,?_,
        .inr ⟨rfl,rfl⟩⟩,rfl,⟨htwin.entered,trivial⟩,fun _ h => h,fun _ h => h⟩
    exact Nat.ne_of_gt (Nat.zero_lt_of_lt htwin.left.intact.current)
  leave := by
    rintro w w1 F s s' hopen hresults ⟨htwin,-⟩
    exact ⟨{ w1 with here := w.here, outer := w.outer }, ⟨⟨hopen.scopes,hopen.bindings,hopen.declares⟩,rfl,rfl,hresults⟩,
      ⟨htwin.left_scope hopen.outer,trivial⟩,fun _ h => h⟩
  declareParam := by
    rintro w w1 F s s' t d mutable - hopen - ⟨htwin,-⟩
    have hcurrent := htwin.shares.current
    rw [run_declareIn_eq, run_declareIn_eq, htwin.vet]
    cases s.scopes.vet s.scopes.current d.name d.span with
    | error e => exact .inl ⟨e,hopen,rfl,rfl⟩
    | ok u =>
      have hadmitted := htwin.admitted hnodup hopen.inner d.name d.span
        (.initializedVar t mutable) none (.var mutable fun _ => ⟨t,rfl,trivial⟩)
        (fun type heq => by cases heq) (by simp) fun hconst => by cases hconst
      rw [← hcurrent] at hadmitted
      refine .inr ⟨w1.tie s.scopes.bindings.size s'.scopes.bindings.size none,_,_,_,_,?_,rfl,
        ⟨hadmitted,trivial⟩,fun _ h => h,fun _ h => h,rfl,rfl⟩
      exact ⟨⟨hopen.scopes,fun b b' hb => .inl (hopen.bindings b b' hb),
        fun d b b' hd => .inl (hopen.declares d b b' hd)⟩,hopen.outer,hopen.inner,hopen.tied⟩
  declareNames := by
    rintro w w1 F Γ s s' decls hopen - hsites ⟨htwin,-⟩
    obtain ⟨w2,hle,htwin2⟩ := htwin.declareNames hnodup decls hopen.inner fun d hd => ⟨_,fun x hx => hsites d hd x hx⟩
    rw [← htwin.shares.current] at htwin2
    exact ⟨w2,hopen.mono hle,hle.results,⟨htwin2,trivial⟩,fun _ h => h,fun _ h => h⟩

end Trees

end Setting

end Opal
