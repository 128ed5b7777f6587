import Opal.Proofs.SettledConstants

/-!
# Constants that are evaluated when they are needed

Whenever a constant of the module is evaluated, it gets the value that it has by the rules, or fails if it has none. Its
evaluation is compared with one in which the values of other constants are given.
-/

namespace Opal

open Check ScopeTree

open Coupling (InStep RunInStep)
open Option

variable {t' t1 u : State} {d : ConstDecl} {stage : ConstStage} {constants : Constants} {name : String}
    {V : String → Option Value} {v : Value}

section Stages

variable {t : State} {b : BindingId} {x : Binding} {type : Option Ty}

section

variable (hx : t.scopes.bindings[b]? = some x)
include hx

lemma run_evaluateWith_done
    (hr : x.referent = .const type (.done v)) (constants : Constants) : (evaluateWith constants b).run t = (.ok v, t) := by
  obtain ⟨name,scope,span,referent⟩ := x
  obtain rfl : referent = _ := hr
  rw [evaluateWith, run_bind, run_get]
  dsimp only
  rw [hx]
  rfl

lemma run_evaluateWith_blocked (hr : x.referent = .const type stage) (hstage : stage = .inProgress ∨ stage = .failed)
    (constants : Constants) : (evaluateWith constants b).run t = (.error .blocked, t) := by
  obtain ⟨name,scope,span,referent⟩ := x
  obtain rfl : referent = _ := hr
  rw [evaluateWith, run_bind, run_get]
  dsimp only
  rw [hx]
  rcases hstage with rfl | rfl <;> rfl

lemma run_evaluateWith_pending
    (hr : x.referent = .const type .pending) (hd : t.constants[b]? = some d) (constants : Constants) :
    (evaluateWith constants b).run t = (evaluateFresh constants b x.scope d).run t := by
  obtain ⟨name,scope,span,referent⟩ := x
  obtain rfl : referent = _ := hr
  rw [evaluateWith, run_bind, run_get]
  dsimp only
  rw [hx, hd]

end

end Stages

/-! ## Comparison with given values -/

/-- An evaluation with given values, and one that evaluates the constants it needs, beginning in `t1`. -/
def Compared (s0 t1 u t : State) : Prop :=
  u.scopes = s0.scopes ∧ u.errors = #[] ∧ s0.Settles t1 [] [] t

lemma Compared.noted {s0 t u' : State} (hu : u.Noted u') (ht : t.Noted t') (h : Compared s0 t1 u t) : Compared s0 t1 u' t' :=
  ⟨hu.scopes.trans h.1,hu.errors.trans h.2.1,h.2.2.noted ht⟩

/-- The two evaluations, as long as the first one does not stop. -/
def comparedLax (s0 t1 : State) : ConstantCoupling :=
  .ofStates (Compared s0 t1) (fun _ _ => True) True (fun _ _ => trivial) (fun _ {_ _ _ _} _ => trivial) Compared.noted

/-- How the two evaluations stop, with the constants in `P` in progress. -/
inductive Halts (s0 t1 : State) (P : List String) : Stop × State → Stop × State → Prop where
  /-- For a reason of their own. -/
  | own {e : Stop} {u t : State} (h : Compared s0 t1 u t) : Halts s0 t1 P (e, u) (e, t)
  /-- At the name of a constant in progress. -/
  | circular {y : String} {span span' : Span} {u t : State}
    (hu : u.errors = #[⟨.circularConstantDefinition y,span⟩]) (hy : y ∈ P)
    (ht : s0.Settles t1 [] [] t) :
    Halts s0 t1 P (.blocked, u) (.error ⟨.circularConstantDefinition y,span'⟩, t)
  /-- At the name of a constant that failed before. -/
  | known {y : String} {span : Span} {u t : State}
    (hu : u.errors = #[⟨.circularConstantDefinition y,span⟩]) (hy : t1.Failed y)
    (ht : s0.Settles t1 [] [] t) : Halts s0 t1 P (.blocked, u) (.blocked, t)
  /-- At the name of a constant that fails now. -/
  | waits {y : String} {span : Span} {u t : State} {l codes : List String}
    (hu : u.errors = #[⟨.circularConstantDefinition y,span⟩]) (hy : ¬ t1.Failed y)
    (ht : s0.Settles t1 l codes t) (hfails : s0.causes.Fails t1.Failed (y :: P) l codes) :
    Halts s0 t1 P (.blocked, u) (.blocked, t)

/-- The two evaluations, which stop at the same time. -/
def comparedStrict (s0 t1 : State) (P : List String) : ConstantCoupling :=
  .ofStates (Compared s0 t1) (Halts s0 t1 P) False (fun _ => .own) (fun _ {_ _ _ _} h => by
      cases h with
      | own h => exact .own h
      | circular hu hy ht => exact .circular hu hy ht
      | known hu hy ht => exact .known hu hy ht
      | waits hu hy ht hfails => exact .waits hu hy ht hfails)
    Compared.noted

section Evaluation

variable {s0 t : State} {b : BindingId} {x : Binding}

/-- The two evaluations keep in step at names if they do so at the constants of the module. -/
theorem names_ofStates (hs0 : s0.Unevaluated) (ht1 : s0.Tracks t1) {stopped : Stop × State → Stop × State → Prop} {lax : Prop}
    (hrefl : ∀ {u t} (e : Stop), Compared s0 t1 u t → stopped (e, u) (e, t))
    (hsize : ∀ (size : Expr) {e e' : Stop} {s s' : State}, stopped (e, s) (e', s') →
      stopped (e.inSize size, s) (e'.inSize size, s')) (hconst : ∀ {u t name k b type stage} (span : Span), Compared s0 t1 u t →
      s0.scopes.find? 0 name = some k → t.scopes.find? 0 name = some b → t.referent? b = some (.const type stage) →
        (ConstantCoupling.ofStates (Compared s0 t1) stopped lax hrefl hsize Compared.noted).Ends ()
          (fun _ v v' => v = v') ((s0.given V k).run u) ((match stage with
            | .inProgress => fail (.circularConstantDefinition name) span
            | _ => constants b).run t)) :
    (ConstantCoupling.ofStates (Compared s0 t1) stopped lax hrefl hsize Compared.noted).Names (s0.given V) constants := by
  rintro w c c' id span name ⟨Γ,⟨rfl,rfl⟩,-⟩
  rintro u t ⟨hu,herrors,hsettles⟩
  rw [constantName, constantName, run_bind, run_bind, run_findFrom, run_findFrom,
    lookup, lookup, nearest?_zero, nearest?_zero, hu]
  have hname := (hsettles.tracks ht1).names name
  generalize hk : s0.scopes.find? 0 name = k, hb : t.scopes.find? 0 name = b at hname
  cases hname with
  | none => exact .stopped (hrefl _ ⟨hu,herrors,hsettles⟩)
  | @some k b hmirrors =>
    obtain ⟨⟨r0,r,hr0,hr,hword⟩,-⟩ := hmirrors
    have hcompared : Compared s0 t1 (u.resolved id k) (t.resolved id b) :=
      .noted (u.noted_step rfl) (t.noted_step rfl) ⟨hu,herrors,hsettles⟩
    have hr0' : (u.resolved id k).referent? k = some r0 := by
      rw [Findings.referent?, hcompared.1]
      exact hr0
    dsimp only
    rw [run_bind, run_bind, run_referentOf hr0', run_referentOf (s := t.resolved id b) hr]
    cases r0 with
    | var =>
      cases r with
      | var => exact .stopped (hrefl _ hcompared)
      | const | func => simp [Referent.word] at hword
    | func =>
      cases r with
      | func => exact .stopped (hrefl _ hcompared)
      | var | const => simp [Referent.word] at hword
    | const type0 stage0 =>
      obtain rfl := (hs0.pending k type0 stage0 hr0).1
      cases r with
      | var | func => simp [Referent.word] at hword
      | const type stage =>
        have hends := hconst span hcompared hk hb hr
        cases stage with
        | _ => exact hends

lemma State.Tracks.exists_const {k : BindingId} (hs0 : s0.Unevaluated) (ht : s0.Tracks t) (hk : s0.scopes.find? 0 name = some k)
    (hd : s0.constants[k]? = some d) (hb : t.scopes.find? 0 name = some b) :
    t.constants[b]? = some d ∧ ∃ x type stage, t.scopes.bindings[b]? = some x ∧ x.scope = 0 ∧
      x.name = name ∧ x.referent = .const type stage ∧ stage.Agrees type (s0.verdict name) := by
  have hname := ht.names name
  rw [hk, hb] at hname
  cases hname with
  | some hmirrors =>
    obtain ⟨⟨r0,r,hr0,hr,hword⟩,hconst⟩ := hmirrors
    refine ⟨hconst.trans hd,?_⟩
    obtain ⟨type0,stage0,hconst0⟩ := hs0.declared k d hd
    obtain rfl := mem_unique hconst0 hr0
    obtain ⟨⟨x,hx,hscope,rfl⟩,-⟩ := find?_eq_some_iff.1 hb
    have hr' := hr
    rw [State.referent?_eq_some hx] at hr'
    obtain rfl := Option.some.inj hr'
    cases hreferent : x.referent with
    | var | func =>
      rw [hreferent] at hword
      simp [Referent.word] at hword
    | const type stage =>
      refine ⟨x,type,stage,hx,hscope,rfl,hreferent,ht.stages _ _ _ ?_⟩
      rw [State.global?_eq_some hb, hr, hreferent]

lemma Bounded.exists_succ {m : Nat} (h : Bounded m t) : ∃ n, m = n + 1 := by
  obtain ⟨l,-,hlen⟩ := h
  exact Nat.exists_eq_succ_of_ne_zero (Nat.ne_zero_of_lt hlen)

/-- The evaluation of a constant gives what it gives with given values, if the constants that have a given value
get this value. -/
theorem evaluateFresh_of_given (hs0 : s0.Unevaluated) (ht : s0.Tracks t)
    (hawaits : t.Awaits b x) (hverdict : s0.verdict x.name = some v)
    (hgiven : ((evaluateDecl (s0.given V) 0 d).run { s0 with errors := #[] }).1 = .ok v)
    (hconst : ∀ {t' y a w}, s0.Settles (t.begun b) [] [] t' → t'.scopes.find? 0 y = some a → V y = some w → ¬ t'.InProgress y ∧
        ∃ t'', (constants a).run t' = (.ok w, t'') ∧ s0.Settles t' [] [] t'') :
    ∃ t', (evaluateFresh constants b 0 d).run t = (.ok v, t') ∧ s0.Settles t [] [] t' := by
  have ht1 := hawaits.tracks_begun ht
  have hnames : (comparedLax s0 (t.begun b)).Names (s0.given V) constants := by
    refine names_ofStates hs0 ht1 _ _ ?_
    intro u t' y k a type stage span hcompared hk ha hr
    obtain ⟨⟨x0,hx0,-,rfl⟩,-⟩ := find?_eq_some_iff.1 hk
    rw [State.run_given hx0]
    cases hw : V x0.name with
    | none => exact .alone trivial
    | some w =>
      obtain ⟨hne,t'',hrun,hsettles⟩ := hconst hcompared.2.2 ha hw
      have hresult : (comparedLax s0 (t.begun b)).Ends () (fun _ v v' => v = v') (.ok w, u) ((constants a).run t') := by
        rw [hrun]
        exact .result (show (comparedLax s0 (t.begun b)).le () () from trivial)
          ⟨hcompared.1,hcompared.2.1,hcompared.2.2.trans hsettles⟩ rfl
      cases stage with
      | inProgress =>
        have hagrees := (hcompared.2.2.tracks ht1).stages x0.name type .inProgress ((State.global?_eq_some ha).trans hr)
        obtain rfl : type = none := hagrees
        exact absurd ((State.global?_eq_some ha).trans hr) hne
      | pending | done | failed => exact hresult
  have hends := evaluateDecl_inStep hnames d (w := ()) ⟨[],⟨rfl,rfl⟩,fun _ _ => trivial⟩
    { s0 with errors := #[] } (t.begun b) ⟨rfl,rfl,.refl s0 _⟩
  rw [run_evaluateFresh]
  generalize (evaluateDecl (s0.given V) 0 d).run { s0 with errors := #[] } = r at hgiven hends
  generalize (evaluateDecl constants 0 d).run (t.begun b) = r' at hends ⊢
  cases hends with
  | stopped | alone => cases hgiven
  | result _ hcompared heq =>
    obtain rfl := heq
    obtain rfl := Except.ok.inj hgiven
    refine ⟨_,rfl,State.Settles.noted ?_ (State.noted_step _ rfl)⟩
    exact hawaits.settles hcompared.2.2 (List.Subset.refl _) (.done hawaits.scope hawaits.referent hverdict) nofun

/-- A constant that gets its value after `n` rounds has this value whenever it is evaluated, unless a constant is in
progress that gets its value after as many rounds. -/
theorem constantWithin_of_valueWithin (hs0 : s0.Unevaluated) :
    ∀ (n : Nat) {m : Nat} {t : State} {b : BindingId} {name : String} {v : Value},
      s0.valueWithin n name = some v → t.scopes.find? 0 name = some b → s0.Tracks t → Bounded m t →
      (∀ q, t.InProgress q → s0.valueWithin n q = none) → ∃ t', (constantWithin m b).run t = (.ok v, t') ∧ s0.Settles t [] [] t'
  | 0, _, _, _, _, _, hv, _, _, _, _ => by cases hv
  | n + 1, m, t, b, name, v, hv, hb, ht, hm, hprogress => by
    have hprogress' (q) (hq : t.InProgress q) : s0.valueWithin n q = none := by
      cases hw : s0.valueWithin n q with
      | none => rfl
      | some w => cases (hprogress q hq).symm.trans (State.valueWithin_succ hw)
    -- The constant may have got its value in an earlier round; then nothing is to be done.
    cases hv' : s0.valueWithin n name with
    | some w =>
      obtain rfl := mem_unique (State.valueWithin_succ hv') hv
      exact constantWithin_of_valueWithin hs0 n hv' hb ht hm hprogress'
    | none =>
      obtain ⟨m,rfl⟩ := hm.exists_succ
      have htrial := State.valueWithin_succ_eq_some.1 hv
      unfold State.trial at htrial
      cases hk : s0.scopes.find? 0 name with
      | none => rw [hk] at htrial; cases htrial
      | some k =>
        rw [hk, bind_some] at htrial
        cases hd : s0.constants[k]? with
        | none => rw [hd] at htrial; cases htrial
        | some d =>
          rw [hd] at htrial
          obtain ⟨hd',x,type,stage,hx,hscope,rfl,hr,hagrees⟩ :=
            ht.exists_const hs0 hk hd hb
          have hverdict : s0.verdict x.name = some v := State.verdict_eq_some_iff.2 ⟨_,hv⟩
          have hglobal : t.global? x.name = some (.const type stage) := by
            rw [State.global?_eq_some hb, State.referent?_eq_some hx, hr]
          rw [constantWithin]
          cases stage with
          | done w =>
            obtain rfl := mem_unique hagrees.2 hverdict
            exact ⟨t,run_evaluateWith_done hx hr _,.refl s0 t⟩
          | failed => cases hagrees.2.symm.trans hverdict
          | inProgress =>
            obtain rfl : type = none := hagrees
            cases (hprogress _ hglobal).symm.trans hv
          | pending =>
            obtain rfl : type = none := hagrees
            have hawaits : t.Awaits b x := ⟨hx,hscope,hr,hb⟩
            rw [run_evaluateWith_pending hx hr hd', hscope]
            refine evaluateFresh_of_given hs0 ht hawaits hverdict htrial ?_
            intro t' y a w hsettles ha hw
            have hnone (q) (hq : t'.InProgress q) : s0.valueWithin n q = none := by
              rw [hsettles.inProgress_iff, State.InProgress, hawaits.global?_begun] at hq
              split at hq
              · next heq => rw [heq, hv']
              · exact hprogress' q hq
            refine ⟨fun hq => ?_,constantWithin_of_valueWithin hs0 n hw ha (hsettles.tracks (hawaits.tracks_begun ht))
              (hsettles.bounded (hm.begun hawaits.referent?)) hnone⟩
            cases (hnone y hq).symm.trans hw

lemma State.Tracks.exists_decl {type : Option Ty} (hs0 : s0.Unevaluated) (ht : s0.Tracks t)
    (hb : t.scopes.find? 0 name = some b) (hr : t.referent? b = some (.const type stage)) :
    ∃ k d, s0.scopes.find? 0 name = some k ∧ s0.constants[k]? = some d ∧ t.constants[b]? = some d := by
  have hname := ht.names name
  rw [hb] at hname
  generalize hk : s0.scopes.find? 0 name = k at hname
  cases hname with
  | @some k _ hmirrors =>
    obtain ⟨⟨r0,r,hr0,hr',hword⟩,hconst⟩ := hmirrors
    obtain rfl := mem_unique hr hr'
    cases r0 with
    | var | func => simp [Referent.word] at hword
    | const type0 stage0 =>
      obtain ⟨-,d,hd⟩ := hs0.pending k type0 stage0 hr0
      exact ⟨k,d,rfl,hd,hconst.trans hd⟩

lemma Halts.fails {P : List String} {e e' : Stop}
    (hawaits : t.Awaits b x) (hverdict : s0.verdict x.name = none) (htrial : s0.trial s0.verdict x.name = (.error e, u))
    (h : Halts s0 (t.begun b) (x.name :: P) (e, u) (e', t')) : ∃ l codes, s0.causes.Fails t.Failed (x.name :: P) l codes ∧
      s0.Settles t l codes ((t'.step e'.event).marked b fun r =>
        (r.setConstType .error).setConstStage .failed) := by
  have hwaits {y : String} {span : Span} (hu : u.errors = #[⟨.circularConstantDefinition y,span⟩]) :
      s0.causes.waits x.name = some y := by
    simp [State.causes, htrial, hu]
  cases h with
  | own hcompared =>
    have hnone : s0.causes.waits x.name = none := by
      simp [State.causes, htrial, hcompared.2.1]
    refine ⟨_,_,.own hnone,?_⟩
    cases e with
    | error e =>
      have hown : s0.causes.own x.name = [e.cause.code] := by simp [State.causes, htrial]
      rw [hown]
      exact hawaits.abandoned hverdict (hcompared.2.2.reported e)
    | blocked =>
      have hown : s0.causes.own x.name = [] := by simp [State.causes, htrial]
      rw [hown]
      exact hawaits.abandoned hverdict (hcompared.2.2.noted (t'.noted_step rfl))
  | @circular y span span' _ _ hu hy ht =>
    exact ⟨_,_,.circular (hwaits hu) hy,hawaits.abandoned hverdict (ht.reported ⟨.circularConstantDefinition y,span'⟩)⟩
  | known hu hy ht =>
    rw [hawaits.failed_begun] at hy
    exact ⟨_,_,.known (hwaits hu) hy,hawaits.abandoned hverdict (ht.noted (t'.noted_step rfl))⟩
  | waits hu hy ht hfails =>
    rw [hawaits.failed_begun] at hy hfails
    exact ⟨_,_,.waits (hwaits hu) hy hfails,hawaits.abandoned hverdict (ht.noted (t'.noted_step rfl))⟩

/-- A constant without a value fails whenever it is evaluated, if only such constants are in progress. -/
theorem constantWithin_fails (hs0 : s0.Unevaluated) : ∀ (m : Nat) {t : State} {b : BindingId} {x : Binding} {P : List String},
      s0.verdict x.name = none → t.Awaits b x → s0.Tracks t → Bounded m t →
      (∀ q, t.InProgress q ↔ q ∈ P) → (∀ q ∈ P, s0.verdict q = none) →
        ∃ t' l codes, (constantWithin m b).run t = (.error .blocked, t') ∧ s0.Settles t l codes t' ∧
          s0.causes.Fails t.Failed (x.name :: P) l codes
  | 0, _, _, _, _, _, _, _, hm, _, _ => by
    obtain ⟨m,hm⟩ := hm.exists_succ
    cases hm
  | m + 1, t, b, x, P, hverdict, hawaits, ht, hm, hprogress, hP => by
    obtain ⟨k,d,hk,hd,hd'⟩ := ht.exists_decl hs0 hawaits.found hawaits.referent?
    have ht1 := hawaits.tracks_begun ht
    have hm1 := hm.begun hawaits.referent?
    have hP' : ∀ q ∈ x.name :: P, s0.verdict q = none := List.forall_mem_cons.2 ⟨hverdict,hP⟩
    have hprogress1 (q) : (t.begun b).InProgress q ↔ q ∈ x.name :: P := by
      rw [State.InProgress, hawaits.global?_begun, List.mem_cons, ← hprogress q, State.InProgress]
      by_cases hq : q = x.name <;> simp [hq]
    have hnames : (comparedStrict s0 (t.begun b) (x.name :: P)).Names (s0.given s0.verdict) (constantWithin m) := by
      refine names_ofStates hs0 ht1 _ _ ?_
      intro u t' y k a type stage span hcompared hk ha hr
      obtain ⟨⟨x0,hx0,-,rfl⟩,-⟩ := find?_eq_some_iff.1 hk
      obtain ⟨hu,herrors,hsettles⟩ := hcompared
      have hglobal := (State.global?_eq_some ha).trans hr
      have ht' := hsettles.tracks ht1
      have hm' := hsettles.bounded hm1
      have hagrees := ht'.stages _ _ _ hglobal
      rw [State.run_given hx0]
      cases hw : s0.verdict x0.name with
      | some w =>
        -- Only constants without a value are in progress, so this one gets its value.
        obtain ⟨n,hn⟩ := State.verdict_eq_some_iff.1 hw
        obtain ⟨t'',hrun,hsettles'⟩ := constantWithin_of_valueWithin hs0 n hn ha ht' hm' fun q hq => by
          rw [hsettles.inProgress_iff, hprogress1] at hq
          cases hn' : s0.valueWithin n q with
          | none => rfl
          | some w' => cases (hP' q hq).symm.trans (State.verdict_eq_some_iff.2 ⟨n,hn'⟩)
        have hresult : (comparedStrict s0 (t.begun b) (x.name :: P)).Ends ()
            (fun _ v v' => v = v') (.ok w, u) ((constantWithin m a).run t') := by
          rw [hrun]
          exact .result (show (comparedStrict s0 (t.begun b) (x.name :: P)).le () () from trivial)
            ⟨hu,herrors,hsettles.trans hsettles'⟩ rfl
        cases stage with
        | inProgress =>
          obtain rfl : type = none := hagrees
          rw [(hP' _ ((hprogress1 _).1 (hsettles.inProgress_iff.1 hglobal)))] at hw
          cases hw
        | pending | done | failed => exact hresult
      | none =>
        have herrors' : (u.step (.reported ⟨.circularConstantDefinition x0.name,x0.span⟩)).errors =
            #[⟨.circularConstantDefinition x0.name,x0.span⟩] := by
          change u.errors.push _ = _
          rw [herrors]
          rfl
        have hfailed : t'.Failed = (t.begun b).Failed := by
          funext q
          simp [hsettles.failed_iff]
        cases stage with
        | inProgress =>
          obtain rfl : type = none := hagrees
          exact .stopped (.circular herrors' ((hprogress1 _).1 (hsettles.inProgress_iff.1 hglobal)) hsettles)
        | done w => cases hagrees.2.symm.trans hw
        | failed =>
          obtain ⟨m,rfl⟩ := hm'.exists_succ
          obtain ⟨rfl,-⟩ := hagrees
          obtain ⟨z,hz,hzr⟩ := map_eq_some_iff.1 hr
          have hrun : (constantWithin (m + 1) a).run t' = (.error .blocked, t') :=
            run_evaluateWith_blocked hz hzr (.inr rfl) _
          rw [hrun]
          exact .stopped (.known herrors' (hfailed ▸ hglobal) hsettles)
        | pending =>
          obtain rfl : type = none := hagrees
          obtain ⟨⟨z,hz,hscope,hname⟩,-⟩ := find?_eq_some_iff.1 ha
          rw [State.referent?_eq_some hz] at hr
          have hawaits' : t'.Awaits a z := ⟨hz,hscope,Option.some.inj hr,hname ▸ ha⟩
          obtain ⟨t'',l,codes,hrun,hsettles',hfails⟩ := constantWithin_fails hs0 m
            (hname ▸ hw) hawaits' ht' hm' (fun q => hsettles.inProgress_iff.trans (hprogress1 q)) hP'
          rw [hrun]
          refine .stopped (.waits herrors' ?_ (hsettles.trans hsettles') ?_)
          · rw [← hfailed, State.Failed, hglobal]
            simp
          · rw [← hfailed, ← hname]
            exact hfails
    have hends := evaluateDecl_inStep hnames d (w := ()) ⟨[],⟨rfl,rfl⟩,fun _ _ => trivial⟩
      { s0 with errors := #[] } (t.begun b) ⟨rfl,rfl,.refl s0 _⟩
    have htrial : s0.trial s0.verdict x.name = (evaluateDecl (s0.given s0.verdict) 0 d).run { s0 with errors := #[] } := by
      rw [State.trial, hk, bind_some, hd]
    rw [constantWithin, run_evaluateWith_pending hawaits.binding hawaits.referent hd', hawaits.scope, run_evaluateFresh]
    generalize (evaluateDecl (s0.given s0.verdict) 0 d).run { s0 with errors := #[] } = r
      at hends htrial
    generalize (evaluateDecl (fun id => constantWithin m id) 0 d).run (t.begun b) = r' at hends ⊢
    cases hends with
    | alone h => exact h.elim
    | result =>
      have hv := State.trial_verdict_eq_ok.1 (congrArg Prod.fst htrial)
      cases hverdict.symm.trans hv
    | @stopped e e' u t' hhalts =>
      obtain ⟨l,codes,hfails,hsettles⟩ := hhalts.fails hawaits hverdict htrial
      cases e' with
      | error e | blocked => exact ⟨_,l,codes,rfl,hsettles,hfails⟩

end Evaluation

end Opal
