import Opal.Proofs.CoupledExpressions
import Opal.Proofs.Hoisting

/-!
# Syntax trees in two runs

Two runs that examine the same tree keep in step, by induction on the tree. A scope is entered and left by both; inside of it,
what is known outside stays known.
-/

namespace Opal

open Coupling (InStep RunInStep)
open List

variable {b b' : BindingId} {m : Check Unit} {d : Decl} {F : Frame} {p : LambdaParam} {params : List LambdaParam}
    {init : Operand} {ret : Option TypeExpr} {st : Stmt}

namespace TreeCoupling

variable {K : TreeCoupling} {w w0 w1 : K.World}

/-- Two runs inside a scope that was opened in `w0`. -/
abbrev inside (K : TreeCoupling) (w0 : K.World) : Coupling :=
  .ofRel (W := K.World) (fun w w' => (∀ t, K.result w t → K.result w' t) ∧ (∀ t, K.value w t → K.value w' t) ∧
      ((∃ F, K.opened w0 w F) → ∃ F, K.opened w0 w' F) ∧ K.results w' = K.results w)
    (fun _ => ⟨fun _ h => h,fun _ h => h,fun h => h,rfl⟩)
    (fun h h' => ⟨fun t ht => h'.1 t (h.1 t ht),fun t ht => h'.2.1 t (h.2.1 t ht),
      fun hF => h'.2.2.1 (h.2.2.1 hF),h'.2.2.2.trans h.2.2.2⟩)
    K.rel

lemma le_inside (hle : K.le w w1) : (K.inside w0).le w w1 :=
  ⟨fun _ => K.result_mono hle,fun _ => K.value_mono hle,fun ⟨F,hF⟩ => ⟨F,K.opened_mono hF hle⟩, K.results_mono hle⟩

variable {α α' : Type} {P : K.World → α → α' → Prop}

lemma inStep_inside {m : Check α} {m' : Check α'} (h : K.InStep w m m' P) : (K.inside w0).InStep w m m' P := by
  intro s s' hrel
  have h := h s s' hrel
  generalize m.run s = r at h ⊢
  generalize m'.run s' = r' at h ⊢
  cases h with
  | result hle hrel h => exact .result (le_inside hle) hrel h
  | stopped h =>
    obtain ⟨he,w',hle,hrel⟩ := K.stops h
    exact .stopped ⟨he,w',le_inside hle,hrel⟩
  | alone h => exact absurd h K.strict

lemma currentScope_inside {f : ScopeId → Check α} {f' : ScopeId → Check α'}
    (h : (K.inside w0).InStep w (f (K.current w).1) (f' (K.current w).2) P) :
    (K.inside w0).InStep w (liftM currentScope >>= f) (liftM currentScope >>= f') P := by
  refine InStep.read (K := K.inside w0) fun s s' hrel =>
    ⟨s.scopes.current,s'.scopes.current,rfl,rfl,?_⟩
  have hcurrent := K.current_eq hrel
  rw [show s.scopes.current = (K.current w).1 from congrArg Prod.fst hcurrent,
    show s'.scopes.current = (K.current w).2 from congrArg Prod.snd hcurrent]
  exact h s s' hrel

/-- Runs that keep in step inside of a new scope keep in step around it. -/
theorem inNewScope_inStep {Q : K.World → α → α' → Prop} {m : Check α} {m' : Check α'}
    (hm : ∀ w1, K.opening w w1 [] → (∀ t, K.result w t → K.result w1 t) →
      (∀ t, K.value w t → K.value w1 t) → (K.inside w).InStep w1 m m' P)
    (hPQ : ∀ w1 w2 a a', (∀ t, K.result w1 t → K.result w2 t) → P w1 a a' → Q w2 a a') :
    K.InStep w (inNewScope m) (inNewScope m') Q := by
  intro s s' hrel
  obtain ⟨w1,hopen,hresults,hrel1,hresult,hvalue⟩ := K.enter hrel
  have h := hm w1 hopen hresult hvalue _ _ hrel1
  rw [run_inNewScope, run_inNewScope]
  generalize m.run (s.step .entered) = r at h ⊢
  generalize m'.run (s'.step .entered) = r' at h ⊢
  cases h with
  | result hle hrel2 h =>
    obtain ⟨F,hF⟩ := hle.2.2.1 ⟨_,K.opened_of_opening hopen⟩
    obtain ⟨w3,hle3,hrel3,hresult3⟩ := K.leave hF (hle.2.2.2.trans hresults) hrel2
    exact .result hle3 hrel3 (hPQ _ _ _ _ hresult3 h)
  | stopped h =>
    obtain ⟨rfl,w2,hle,hrel2⟩ := h
    obtain ⟨F,hF⟩ := hle.2.2.1 ⟨_,K.opened_of_opening hopen⟩
    obtain ⟨w3,hle3,hrel3,-⟩ := K.leave hF (hle.2.2.2.trans hresults) hrel2
    exact .stopped (K.stopped_mono hle3 (Coupling.Uniform.stopped_refl _ hrel3))
  | alone h => exact h.elim

lemma returning_inside {ret : Ty} {x : Run Unit} (hopen : K.opening w0 w1 F) (hret : K.result w1 ret)
    (hx : ∀ w2, K.opening w0 w2 F → (K.inside w0).RunFollows w2 x x) :
    (K.inside w0).RunFollows w1 (returning ret x) (returning ret x) := by
  intro s s' hrel
  obtain ⟨w2,hkeep,hresults2,hresult2,hvalue2,hrel2⟩ := K.called hret hrel
  obtain ⟨w3,hle3,hrel3,-⟩ := hx w2 (hkeep hopen) _ _ hrel2
  obtain ⟨w4,hkeep4,hresults4,hresult4,hvalue4,hrel4⟩ := K.returned hrel3
  obtain ⟨F3,hopen3⟩ := hle3.2.2.1 ⟨F,K.opened_of_opening (hkeep hopen)⟩
  refine ⟨w4,⟨fun t ht => hresult4 t (hle3.1 t (hresult2 t ht)),
    fun t ht => hvalue4 t (hle3.2.1 t (hvalue2 t ht)),fun _ => ⟨F3,hkeep4 hopen3⟩,?_⟩,hrel4,trivial⟩
  rw [hresults4, hle3.2.2.2, hresults2, tail_cons]

lemma reported_inStep {m' : Check Unit} {P : K.World → Unit → Unit → Prop}
    (h : K.InStep w m m' P) : K.RunFollows w (Opal.reported m) (Opal.reported m') := by
  refine RunInStep.reported K.strict K.stops (fun w e s s' hrel => ?_) h
  obtain ⟨w',hle,-,hrel'⟩ := K.ended e hrel
  exact ⟨w',hle,hrel'⟩

end TreeCoupling

open TreeCoupling

section Rules

variable {K : TreeCoupling} {w w0 w1 : K.World} {expected : Option Ty} {span span : Span} {x : Run Unit}

/-! ## Lambdas -/

lemma ownParamType_inStep (h : K.Here w p.located) : K.Same w (ownParamType p) K.value := by
  obtain ⟨name,type,span⟩ := p
  cases type with
  | none => exact .fail _ _
  | some t => exact denoteHere_inStep h.sub .value

lemma lambdaParamType_inStep {wanted : Ty} (h : K.Here w p.located)
    (hwanted : K.value w wanted) : K.Same w (lambdaParamType p wanted) K.value := by
  obtain ⟨name,type,span⟩ := p
  cases type with
  | none => exact .pure ⟨rfl,hwanted⟩
  | some t =>
    refine (denoteHere_inStep h.sub .value).bind ?_
    rintro w1 u _ - ⟨rfl,hu⟩
    exact .ite (fun _ => .mismatch _ _ _) fun _ => .pure ⟨rfl,hu⟩

lemma located_subset_locatedLambdaParams (Γ : Env) : ∀ {ps : List LambdaParam}, p ∈ ps → p.located Γ ⊆ locatedLambdaParams ps Γ
  | p' :: ps, hp => by
    rcases mem_cons.1 hp with rfl | hp
    · exact subset_append_left _ _
    · exact List.Subset.trans (located_subset_locatedLambdaParams Γ hp) (subset_append_right _ _)

/-- The parameters of a lambda have the same types in both runs. -/
theorem lambdaParamTypes_inStep {target : Option (List Ty)}
    (h : K.Here w (locatedLambdaParams params)) (htarget : ∀ ts ∈ target, ∀ t ∈ ts, K.value w t) :
    K.Same w (lambdaParamTypes params target span) fun w' ts =>
      ts.length = params.length ∧ ∀ t ∈ ts, K.value w' t := by
  have hparam {p : LambdaParam} (hp : p ∈ params) {w1 : K.World} (hle : K.le w w1) : K.Here w1 p.located :=
    (h.mono hle).sub fun Γ => located_subset_locatedLambdaParams Γ hp
  cases target with
  | none =>
    exact InStep.mapM (P := K.value) (fun _ _ _ hle ht => K.value_mono hle ht) params fun p hp w1 hle =>
      ownParamType_inStep (hparam hp hle)
  | some wanted =>
    refine .ite (fun _ => .fail _ _) fun hlen => ?_
    have hlen : wanted.length = params.length := not_not.1 hlen
    refine (InStep.mapM (P := K.value) (fun _ _ _ hle ht => K.value_mono hle ht) (params.zip wanted)
      fun p hp w1 hle => ?_).mono fun w' ts ts' _ hts => ⟨hts.1,?_,hts.2.2⟩
    · obtain ⟨hmem,hmem'⟩ := of_mem_zip hp
      exact lambdaParamType_inStep (hparam hmem hle) (K.value_mono hle (htarget wanted rfl p.2 hmem'))
    · rw [hts.2.1, length_zip, hlen, Nat.min_self]

lemma lambdaReturn_inStep {target : Option Ty} (h : K.Here w (locatedOptionalType ret)) (htarget : K.Expects w target) :
    K.Same w (lambdaReturn ret target) K.Expects := by
  cases ret with
  | none => exact .pure ⟨rfl,htarget⟩
  | some t =>
    refine (denoteHere_inStep h.sub .result).bind ?_
    rintro w1 u _ - ⟨rfl,hu⟩
    cases target with
    | none => exact .pure ⟨rfl,.some hu⟩
    | some wanted => exact .ite (fun _ => .mismatch _ _ _) fun _ => .pure ⟨rfl,.some hu⟩

lemma declareLambdaParams_inside : ∀ (ps : List LambdaParam) (ts : List Ty) {F : Frame}
    {w1 : K.World}, ts.length = ps.length → K.opening w0 w1 F → (∀ t ∈ ts, K.value w1 t) →
      (K.inside w0).InStep w1 (declareLambdaParams ps ts) (declareLambdaParams ps ts) fun w' _ _ =>
        K.opening w0 w' (F ++ ps.map LambdaParam.declarator) ∧ ∀ t, K.result w1 t → K.result w' t
  | [], [], F, w1, _, hopen, _ => by
    rw [map_nil, append_nil]
    exact .pure ⟨hopen,fun _ h => h⟩
  | p :: ps, t :: ts, F, w1, hlen, hopen, hts => by
    intro s s' hrel
    have hrun (s : State) : (declareLambdaParams (p :: ps) (t :: ts)).run s =
        (declareIn s.scopes.current p.declarator.name p.declarator.span (.initializedVar t false) >>=
          fun _ => declareLambdaParams ps ts).run s := rfl
    rw [hrun s, hrun s']
    refine Coupling.Ends.bind (K := K.inside w0) (P := fun w' _ _ => K.opening w0 w' (F ++ [p.declarator]) ∧
      (∀ t, K.result w1 t → K.result w' t) ∧ ∀ t ∈ ts, K.value w' t) ?_ ?_
    · rcases K.declareParam p.declarator false rfl hopen (hts t mem_cons_self) hrel with
        ⟨e,-,hrun,hrun'⟩ | ⟨w2,b,b',s1,s1',hopen2,hresults,hrel2,hresult,hvalue,hrun,hrun'⟩
      · rw [hrun, hrun']
        exact .stopped (Coupling.Uniform.stopped_refl _ hrel)
      · rw [hrun, hrun']
        exact .result ⟨hresult,hvalue,fun _ => ⟨_,K.opened_of_opening hopen2⟩,hresults⟩ hrel2
          ⟨hopen2,hresult,fun u hu => hvalue u (hts u (mem_cons_of_mem _ hu))⟩
    · rintro w2 _ _ s1 s1' - hrel2 ⟨hopen2,hresult,hts2⟩
      refine (declareLambdaParams_inside ps ts (Nat.succ.inj hlen) hopen2 hts2 s1 s1' hrel2).mono
        ((K.inside w0).le_refl w2) fun w' _ _ _ h => ⟨?_,fun t ht => h.2 t (hresult t ht)⟩
      rw [map_cons, append_cons]
      exact h.1

/-- The examinations of the body of a lambda with the parameters in `F` keep in step. -/
def BodyInStep (K : TreeCoupling) (w : K.World) (F : Frame) (body : Option Ty → Check Ty) : Prop :=
  ∀ w0 w1, K.le w w0 → K.opening w0 w1 F → ∀ known, K.Expects w1 known →
    (K.inside w0).InStep w1 (body known) (body known) fun w' t t' => t = t' ∧ K.result w' t

lemma expectedFunction_known (hexp : K.Expects w expected) :
    (∀ ts ∈ (expectedFunction expected).map (·.1), ∀ t ∈ ts, K.value w t) ∧
      K.Expects w ((expectedFunction expected).map (·.2)) := by
  cases expected with
  | none => exact ⟨nofun,.none⟩
  | some t =>
    cases t with
    | function params ret =>
      have hparts := K.parts (hexp _ rfl)
      refine ⟨?_,.some hparts.2⟩
      rintro _ ⟨⟩
      exact hparts.1
    | _ => exact ⟨nofun,.none⟩

/-- A lambda has the same type in both runs if its body keeps in step. -/
theorem lambdaValue_inStep {body : Option Ty → Check Ty} (hparams : K.Here w (locatedLambdaParams params)) (hret : K.Here w (locatedOptionalType ret))
    (hbody : BodyInStep K w (params.map LambdaParam.declarator) body) (hexp : K.Expects w expected) :
    K.Same w (lambdaValue params ret body span expected) K.result := by
  obtain ⟨htarget,htarget'⟩ := expectedFunction_known hexp
  refine (lambdaParamTypes_inStep hparams htarget).bind ?_
  rintro w1 ts _ hle ⟨rfl,hlen,hts⟩
  refine (lambdaReturn_inStep (hret.mono hle) (htarget'.mono hle)).bind ?_
  rintro w2 known _ hle2 ⟨rfl,hknown⟩
  have hts2 (t) (ht : t ∈ ts) : K.value w2 t := K.value_mono hle2 (hts t ht)
  refine InStep.bind (P := fun w' t t' => t = t' ∧ K.result w' t) (inNewScope_inStep (P := fun w' t t' => t = t' ∧ K.result w' t)
      (fun w3 hopen hresult hvalue => ?_) fun _ _ _ _ h ht => ⟨ht.1,h _ ht.2⟩) ?_
  · refine (declareLambdaParams_inside params ts hlen hopen fun t ht => hvalue t (hts2 t ht)).bind ?_
    rintro w4 _ _ - ⟨hopen4,hresult4⟩
    exact hbody w2 w4 (K.le_trans hle hle2) hopen4 known fun t ht => hresult4 t (hresult t (hknown t ht))
  · rintro w3 t _ hle3 ⟨rfl,ht⟩
    exact built_inStep (t := .function ts t) ⟨fun u hu => K.value_mono hle3 (hts2 u hu),ht⟩ (by simp) (by simp) .result

lemma exprBody_inStep {o : Operand} (h : K.Examines w o) (known : Option Ty) (hknown : K.Expects w known) :
    K.Same w (exprBody o known) K.result := by
  have hown := h.value w (K.le_refl w) none .none
  cases known with
  | none => exact hown
  | some t =>
    cases t with
    | void => exact hown.thenPure fun w1 _ _ _ _ => ⟨rfl,K.result_void w1⟩
    | _ =>
      have ht := hknown _ rfl
      exact (Operand.against_inStep h ht).thenPure fun _ _ _ hle _ => ⟨rfl,K.result_mono hle ht⟩

lemma blockBody_inside {known : Option Ty} (hopen : K.opening w0 w1 F)
    (hknown : K.Expects w1 known) (hx : ∀ w2, K.opening w0 w2 F → (K.inside w0).RunFollows w2 x x) :
    (K.inside w0).InStep w1 (blockBody x known) (blockBody x known) fun w' t t' => t = t' ∧ K.result w' t := by
  have hret : K.result w1 (known.getD .void) := by
    cases known with
    | none => exact K.result_void w1
    | some t => exact hknown t rfl
  exact InStep.bind (.lift (returning_inside hopen hret hx)) fun w2 _ _ hle _ => .pure ⟨rfl,hle.1 _ hret⟩

/-! ## Declarations -/

lemma ifAccepted_inStep {m : BindingId → Check Unit} (h : K.Here w d.located)
    (hm : ∀ b b', K.declares w d b b' → K.Follows w (m b) (m b')) :
    K.Follows w (ifAccepted d.id m) (ifAccepted d.id m) := by
  intro s s' hrel
  rw [run_ifAccepted, run_ifAccepted]
  rcases K.accepted h hrel with ⟨hnone,hnone'⟩ | ⟨b,b',hb,hb',hdeclares⟩
  · rw [hnone, hnone']
    exact .result (K.le_refl w) hrel trivial
  · rw [hb, hb']
    exact hm b b' hdeclares s s' hrel

lemma signature_inStep (h : K.Here w d.located) : K.Follows w (signature d) (signature d) := by
  cases d with
  | func d =>
    refine ifAccepted_inStep (d := .func d) h fun b b' hb => learnSignature_inStep h ?_
    exact fun w1 params ret hle hlen => K.signature (K.declares_mono hle hb) hlen
  | var | const => exact .pure trivial

lemma signatures_inStep : ∀ (decls : List Decl) {w : K.World}, (∀ d ∈ decls, K.Here w d.located) →
    K.RunFollows w (decls.forM fun d => reported (signature d)) (decls.forM fun d => reported (signature d))
  | [], _, _ => .pure trivial
  | d :: decls, w, h => by
    refine (reported_inStep (signature_inStep (h d mem_cons_self))).bind fun w1 _ _ hle _ => ?_
    exact signatures_inStep decls fun d' hd' => (h d' (mem_cons_of_mem _ hd')).mono hle

lemma varType_inStep {written : Option TypeExpr} (name : String)
    (h : K.Here w (locatedOptionalType written)) (hinit : K.Examines w init) :
    K.Same w (varType name written init) K.value := by
  cases written with
  | some t =>
    refine (denoteHere_inStep h.sub .value).bind ?_
    rintro w1 u _ hle ⟨rfl,hu⟩
    exact (Operand.against_inStep (hinit.mono hle) (K.result_of_value hu)).thenPure fun _ _ _ hle2 _ => ⟨rfl,K.value_mono hle2 hu⟩
  | none =>
    refine (hinit.value w (K.le_refl w) none .none).bind ?_
    rintro w1 t _ - ⟨rfl,ht⟩
    exact .ite (fun _ => .fail _ _) fun hvoid => .pure ⟨rfl,K.value_of_result ht hvoid⟩

/-- The declaration of a variable keeps in step if its initial value does. -/
theorem varDecl_inStep {type : Option TypeExpr} (name : String)
    (h : K.Here w (locatedOptionalType type)) (hinit : K.Examines w init)
    (hchange : ∀ w1 f, K.le w w1 → Referent.VarChange (K.value w1) f →
      K.RunFollows w1 (modifyReferent b f) (modifyReferent b' f)) :
    K.Follows w (varDecl name type init b) (varDecl name type init b') := by
  refine InStep.bind (.lift (hchange w _ (K.le_refl w) .initializing)) fun w1 _ _ hle _ => ?_
  refine .handled K.strict ?_ ?_
  · refine (varType_inStep name (h.mono hle) (hinit.mono hle)).bind ?_
    rintro w2 t _ hle2 ⟨rfl,ht⟩
    exact .lift (hchange w2 _ (K.le_trans hle hle2) (.initialized ht))
  · intro e e' s s' hstopped
    obtain ⟨rfl,w2,hle2,hrel⟩ := K.stops hstopped
    have hfailed := hchange w2 _ (K.le_trans hle hle2) .failed
    refine (InStep.bind (.lift hfailed) (fun w3 _ _ _ _ => .throw e) s s' hrel).mono
      (Q := fun _ _ _ => True) (P := fun _ _ _ => True) hle2 fun _ _ _ _ _ => trivial

lemma current_of_run_declareIn {s s1 : State} {scope : ScopeId} {name : String}
    {r : Referent} (h : (declareIn scope name span r).run s = (.ok b, s1)) : s1.scopes.current = s.scopes.current := by
  rcases run_declareIn s scope name span r with ⟨e,hrun⟩ | hrun
  · cases hrun.symm.trans h
  · cases hrun.symm.trans h
    rfl

lemma declareParam_inside {t : Ty} (p : Param) (hopen : K.opening w0 w1 F) (ht : K.value w1 t) :
    (K.inside w0).RunInStep w1 (reported do let _ ← declareIn (K.current w1).1 p.name p.span (.initializedVar t p.mutable))
      (reported do let _ ← declareIn (K.current w1).2 p.name p.span (.initializedVar t p.mutable))
      fun w' _ _ => K.opening w0 w' (F ++ [p.declarator]) ∧ K.current w' = K.current w1 := by
  intro s s' hrel
  rw [← K.current_eq hrel, run_reported, run_reported, Check.run_bind, Check.run_bind]
  rcases K.declareParam p.declarator p.mutable rfl hopen ht hrel with
    ⟨e,hopen1,hrun,hrun'⟩ | ⟨w2,b,b',s1,s1',hopen2,hresults,hrel2,hresult,hvalue,hrun,hrun'⟩
  · obtain ⟨w2,hle2,hkeep,hrel2⟩ := K.ended (.error e) hrel
    rw [show (declareIn _ p.name p.span _).run s = _ from hrun,
      show (declareIn _ p.name p.span _).run s' = _ from hrun']
    refine ⟨w2,le_inside hle2,hrel2,hkeep hopen1,?_⟩
    rw [K.current_mono hle2, K.current_eq hrel]
  · rw [show (declareIn _ p.name p.span _).run s = _ from hrun,
      show (declareIn _ p.name p.span _).run s' = _ from hrun']
    refine ⟨w2,⟨hresult,hvalue,fun _ => ⟨_,K.opened_of_opening hopen2⟩,hresults⟩,hrel2,hopen2,?_⟩
    rw [← K.current_eq hrel2, current_of_run_declareIn hrun, current_of_run_declareIn hrun']

lemma declareParams_inside : ∀ (ps : List Param) (fs : List Formal) {F : Frame} {w1 : K.World},
    fs.length = ps.length → K.opening w0 w1 F → (∀ f ∈ fs, K.value w1 f.type) →
      (K.inside w0).RunInStep w1 (declareParams (K.current w1).1 ps fs) (declareParams (K.current w1).2 ps fs) fun w' _ _ =>
          K.opening w0 w' (F ++ ps.map Param.declarator)
  | [], [], F, w1, _, hopen, _ => by
    rw [map_nil, append_nil]
    exact .pure hopen
  | p :: ps, f :: fs, F, w1, hlen, hopen, hfs => by
    rw [map_cons, append_cons]
    refine (declareParam_inside p hopen (hfs f mem_cons_self)).bind ?_
    rintro w2 _ _ hle ⟨hopen2,hcurrent⟩
    rw [← hcurrent]
    exact declareParams_inside ps fs (Nat.succ.inj hlen) hopen2 fun f' hf' => hle.2.1 _ (hfs f' (mem_cons_of_mem _ hf'))

/-- The body of a function keeps in step, after its parameters were bound. -/
def BlockInStep (K : TreeCoupling) (w : K.World) (F : Frame) (x : Run Unit) : Prop :=
  ∀ w0 w1, K.le w w0 → K.opening w0 w1 F → (K.inside w0).RunFollows w1 x x

/-- The declaration of a function keeps in step if its body does. -/
theorem funDecl_inStep {params : List Param} (hx : BlockInStep K w (params.map Param.declarator) x)
    (hfunction : ∀ s s', K.rel w s s' → ∃ r r', s.referent? b = some r ∧ s'.referent? b' = some r' ∧
      r.Alike (K.result w) (K.value w) r' ∧ ∀ t formals, r = .func t formals → t ≠ .error → formals.length = params.length) :
    K.Follows w (funDecl params x b) (funDecl params x b') := by
  refine .read fun s s' hrel => ?_
  obtain ⟨r,r',hr,hr',halike,harity⟩ := hfunction s s' hrel
  refine ⟨r,r',run_referentOf hr,run_referentOf hr',?_⟩
  cases halike with
  | @func t fs ht hfs =>
    cases t with
    | function ts ret =>
      have hlen := harity _ fs rfl (by simp)
      have hret := (K.parts (ht (by simp))).2
      refine inNewScope_inStep (P := fun _ _ _ => True) (fun w1 hopen hresult hvalue => ?_) (fun _ _ _ _ _ _ => trivial) s s' hrel
      refine currentScope_inside (InStep.bind (.lift (declareParams_inside params fs hlen hopen
        fun f hf => hvalue _ (hfs f hf))) fun w2 _ _ hle hopen2 => .lift ?_)
      exact returning_inside hopen2 (hle.1 _ (hresult _ hret)) fun w3 => hx w w3 (K.le_refl w)
    | _ =>
      exact InStep.pure trivial s s' hrel
  | var | const => exact InStep.pure trivial s s' hrel

/-! ## Statements -/

variable {o target value : Operand} {x : Run Unit}

lemma assignStmt_inStep (ht : K.Examines w target) (hv : K.Examines w value) :
    K.Follows w (assignStmt target value) (assignStmt target value) := by
  refine (ht.place w (K.le_refl w) _).bind ?_
  rintro w1 p _ hle ⟨rfl,hp⟩
  refine .ite (fun _ => ?_) fun _ => ?_
  · exact (Operand.against_inStep (hv.mono hle) (K.result_of_value hp)).thenPure fun _ _ _ _ _ => trivial
  · cases p.origin with
    | binding | deref => exact .fail _ _

lemma exprStmt_inStep (h : K.Examines w o) : K.Follows w (exprStmt o) (exprStmt o) :=
  (h.value w (K.le_refl w) none .none).thenPure fun _ _ _ _ _ => trivial

lemma resultType_inStep : K.Same w (liftM resultType) K.result := by
  intro s s' hrel
  obtain ⟨heq,heq',hknown⟩ := K.resultTypes hrel
  have hrun (s : State) : (liftM resultType : Check Ty).run s = (.ok (s.resultTypes.head?.getD .void), s) := rfl
  rw [hrun, hrun, heq, heq']
  refine .result (K.le_refl w) hrel ⟨rfl,?_⟩
  cases hhead : (K.results w).head? with
  | none => exact K.result_void w
  | some t => exact hknown t (mem_of_mem_head? hhead)

lemma returnStmt_inStep (h : K.Examines w o) : K.Follows w (returnStmt o) (returnStmt o) := by
  refine resultType_inStep.bind ?_
  rintro w1 ret _ hle ⟨rfl,hret⟩
  refine .ite (fun _ => ?_) fun _ => ?_
  · refine (h.value w1 hle none .none).bind ?_
    rintro w2 t _ - ⟨rfl,-⟩
    exact .mismatch _ _ _
  · exact (Operand.against_inStep (h.mono hle) hret).thenPure fun _ _ _ _ _ => trivial

lemma bareReturnStmt_inStep (span : Span) : K.Follows w (bareReturnStmt span) (bareReturnStmt span) := by
  refine resultType_inStep.bind ?_
  rintro w1 ret _ - ⟨rfl,-⟩
  exact .ite (fun _ => .pure trivial) fun _ => .mismatch _ _ _

lemma blockStmt_inStep (hx : BlockInStep K w [] x) : K.Follows w (blockStmt x) (blockStmt x) :=
  inNewScope_inStep (P := fun _ _ _ => True) (fun w1 hopen _ _ => .lift (hx w w1 (K.le_refl w) hopen)) fun _ _ _ _ _ _ => trivial

lemma BlockInStep.mono (h : BlockInStep K w F x) (hle : K.le w w1) : BlockInStep K w1 F x :=
  fun w2 w3 hle2 => h w2 w3 (K.le_trans hle hle2)

lemma ifStmt_inStep (h : K.Examines w o) (hx : BlockInStep K w [] x) : K.Follows w (ifStmt o x) (ifStmt o x) :=
  (Operand.against_inStep h (K.result_of_value (K.value_bool w))).bind fun _ _ _ hle _ => blockStmt_inStep (hx.mono hle)

lemma ifElseStmt_inStep (h : K.Examines w o) (hx : BlockInStep K w [] x)
    (hm : ∀ w1, K.le w w1 → K.Follows w1 m m) :
    K.Follows w (ifElseStmt o x m) (ifElseStmt o x m) :=
  (ifStmt_inStep h hx).bind fun w1 _ _ hle _ => .lift (reported_inStep (hm w1 hle))

/-! ## Blocks -/

lemma located_subset_locatedStmts (Γ : Env) : ∀ {ss : List Stmt}, st ∈ ss → st.located Γ ⊆ locatedStmts ss Γ
  | st' :: ss, h => by
    rcases mem_cons.1 h with rfl | h
    · exact subset_append_left _ _
    · exact List.Subset.trans (located_subset_locatedStmts Γ h) (subset_append_right _ _)

lemma Stmt.located_of_decl (h : st.decl? = some d) (Γ : Env) : st.located Γ = d.located Γ := by
  obtain ⟨span,form⟩ := st
  cases form with
  | decl d' =>
    obtain rfl : d' = d := Option.some.inj h
    rw [Stmt.located, StmtForm.located]
  | _ => cases h

lemma located_subset_of_mem_decls {stmts : List Stmt}
    (h : d ∈ (Block.mk stmts span).decls) (Γ : Env) : d.located Γ ⊆ locatedStmts stmts Γ := by
  obtain ⟨st,hst,hd⟩ := mem_filterMap.1 h
  rw [← Stmt.located_of_decl hd]
  exact located_subset_locatedStmts Γ hst

lemma checkStmts_inStep : ∀ (ss : List Stmt) {w : K.World},
    (∀ st ∈ ss, ∀ w1, K.le w w1 → K.Follows w1 st.check st.check) →
      K.RunFollows w (checkStmts ss) (checkStmts ss)
  | [], _, _ => .pure trivial
  | st :: ss, w, h => by
    refine (reported_inStep (h st mem_cons_self w (K.le_refl w))).bind fun w1 _ _ hle _ => ?_
    exact checkStmts_inStep ss fun st' hst' w2 hle2 =>
      h st' (mem_cons_of_mem _ hst') w2 (K.le_trans hle hle2)

/-- The names of a block are bound in the scope that was opened for it; then its statements may be examined there. -/
theorem Block.check_inside {b : Block} (h : K.Here w (b.located F)) (hstmts : ∀ st ∈ b.stmts, ∀ w, K.Here w st.located →
      K.Follows w st.check st.check) : BlockInStep K w F b.check := by
  obtain ⟨stmts,span⟩ := b
  intro w0 w1 hle hopen s s' hrel
  obtain ⟨Γ,hstands,hsites⟩ := h.mono hle
  obtain ⟨w2,hopen2,hresults,hrel2,hresult,hvalue⟩ :=
    K.declareNames (Block.mk stmts span).decls hopen hstands
      (fun d hd x hx => hsites x (located_subset_of_mem_decls hd _ hx)) hrel
  have hstands2 := K.opened_stands hopen2 hstands
  have hhere (st) (hst : st ∈ stmts) : K.Here w2 st.located :=
    ⟨_,hstands2,fun x hx => hsites x (located_subset_locatedStmts _ hst hx)⟩
  have hdecls (d) (hd : d ∈ (Block.mk stmts span).decls) : K.Here w2 d.located :=
    ⟨_,hstands2,fun x hx => hsites x (located_subset_of_mem_decls hd _ hx)⟩
  have hrest : K.RunFollows w2 (((Block.mk stmts span).decls.forM fun d => reported (signature d)) >>= fun _ => checkStmts stmts)
      (((Block.mk stmts span).decls.forM fun d => reported (signature d)) >>= fun _ => checkStmts stmts) :=
    (signatures_inStep _ hdecls).bind fun w3 _ _ hle3 _ =>
      checkStmts_inStep stmts fun st hst w4 hle4 =>
        hstmts st hst w4 ((hhere st hst).mono (K.le_trans hle3 hle4))
  obtain ⟨w3,hle3,hrel3,-⟩ := hrest _ _ hrel2
  exact ⟨w3,(K.inside w0).le_trans ⟨hresult,hvalue,fun _ => ⟨_,hopen2⟩,hresults⟩ (le_inside hle3),hrel3,trivial⟩

end Rules

/-! ## The induction -/

section Trees

variable {K : TreeCoupling}

mutual

/-- An expression is examined in step by both runs, as a value and as a place. -/
theorem Expr.operand_inStep : ∀ (e : Expr) {w : K.World}, K.Here w e.located → K.Examines w e.operand
  | ⟨id,span,form⟩, w, h => by
    refine ⟨fun w1 hle expected hexp => ?_,fun w1 hle use => ?_⟩
    · refine .perform (K.begun id hexp) fun w2 hle2 => ?_
      refine (form.value_inStep id span (h.mono (K.le_trans hle hle2)) expected (hexp.mono hle2)).bind ?_
      rintro w3 t _ - ⟨rfl,ht⟩
      exact .perform (K.typed id ht) fun _ hle4 => .pure ⟨rfl,K.result_mono hle4 ht⟩
    · refine (form.place_inStep id span (h.mono hle) use).bind ?_
      rintro w2 p _ - ⟨rfl,hp⟩
      exact .perform (K.typed id (K.result_of_value hp)) fun _ hle3 => .pure ⟨rfl,K.value_mono hle3 hp⟩

lemma ExprForm.value_inStep (form : ExprForm) (id : NodeId) (span : Span) {w : K.World}
    (h : K.Here w (Expr.located ⟨id,span,form⟩)) (expected : Option Ty) (hexp : K.Expects w expected) :
    K.Same w (form.value id span expected) K.result := by
  cases form with
  | int text =>
    refine (literalOfType_inStep text false span expected).thenPure ?_
    rintro w1 v _ - rfl
    exact ⟨rfl,K.result_of_value (K.value_type w1 v)⟩
  | bool => exact .pure ⟨rfl,K.result_of_value (K.value_bool w)⟩
  | char c => exact .pure ⟨rfl,K.result_of_value (K.value_type w (.char c))⟩
  | string => exact .pure ⟨rfl,K.basic (by simp [TypeRegistry.basic]) nofun⟩
  | name => exact readName_inStep h
  | binary op l r => exact binaryValue_inStep (l.operand_inStep h.sub) (r.operand_inStep h.sub) hexp op
  | unary op e =>
    have he := e.operand_inStep (h.sub : K.Here w e.located)
    cases op with
    | neg => exact negationValue_inStep he hexp span
    | not => exact complementValue_inStep he
  | addressOf e => exact addressValue_inStep (e.operand_inStep h.sub)
  | deref e => exact derefValue_inStep (e.operand_inStep h.sub)
  | index base index => exact indexValue_inStep (base.operand_inStep h.sub) (index.operand_inStep h.sub)
  | call callee args =>
    have hcallee : K.Here w callee.located := h.sub
    refine callValue_inStep ?_ (callee.operand_inStep hcallee) (argumentOperands_inStep args h.sub) span
    rw [callee.expr_operand]
    exact hcallee
  | array elements => exact arrayValue_inStep (operands_inStep elements h.sub) span expected hexp
  | lambda params ret body =>
    refine lambdaValue_inStep h.sub h.sub (body.check_inStep (h.sub fun Γ => ?_)) hexp
    rw [Expr.located, ExprForm.located]
    grind
  | paren e => exact (e.operand_inStep h.sub).value w (K.le_refl w) expected hexp

lemma ExprForm.place_inStep (form : ExprForm) (id : NodeId) (span : Span) {w : K.World}
    (h : K.Here w (Expr.located ⟨id,span,form⟩)) (use : PlacePurpose) :
    K.Same w (form.place id span use) fun w' p => K.value w' p.type := by
  cases form with
  | paren e => exact (e.operand_inStep h.sub).place w (K.le_refl w) use
  | name => exact namedPlace_inStep h use
  | deref e => exact derefPlace_inStep (e.operand_inStep h.sub)
  | index base index => exact indexPlace_inStep (base.operand_inStep h.sub) (index.operand_inStep h.sub) use
  | _ => exact .fail _ _

lemma operands_inStep : ∀ (es : List Expr) {w : K.World}, K.Here w (locatedExprs es) → ∀ o ∈ operands es, K.Examines w o
  | [], _, _ => by
    rw [operands]
    simp
  | e :: es, w, h => forall_mem_cons.2 ⟨e.operand_inStep h.sub,operands_inStep es h.sub⟩

lemma argumentOperands_inStep : ∀ (as : List Argument) {w : K.World},
    K.Here w (locatedArguments as) → ∀ a ∈ argumentOperands as, K.Examines w a.value
  | [], _, _ => by
    rw [argumentOperands]
    simp
  | ⟨_,value,_⟩ :: as, w, h => forall_mem_cons.2 ⟨value.operand_inStep h.sub,argumentOperands_inStep as h.sub⟩

lemma LambdaBody.check_inStep : ∀ (body : LambdaBody) {F : Frame} {w : K.World},
    K.Here w (body.located F) → BodyInStep K w F body.check
  | .expr e, F, w, h => by
    intro w0 w1 hle hopen known hknown
    obtain ⟨Γ,hstands,hsites⟩ := h.mono hle
    exact inStep_inside (exprBody_inStep
      (e.operand_inStep ⟨_,K.opened_stands (K.opened_of_opening hopen) hstands,hsites⟩) known hknown)
  | .block b, F, w, h => by
    intro w0 w1 hle hopen known hknown
    exact blockBody_inside hopen hknown fun w2 hopen2 =>
      b.check_inStep h.sub w0 w2 hle hopen2

/-- So is a block, with the names of `F` in its scope. -/
theorem Block.check_inStep : ∀ (b : Block) {F : Frame} {w : K.World}, K.Here w (b.located F) → BlockInStep K w F b.check
  | ⟨stmts,_⟩, _, _, h => Block.check_inside h (stmts_inStep stmts)

lemma stmts_inStep : ∀ (ss : List Stmt), ∀ st ∈ ss, ∀ w : K.World, K.Here w st.located →
    K.Follows w st.check st.check
  | [] => by simp
  | st :: ss => forall_mem_cons.2 ⟨fun _ h => st.check_inStep h,stmts_inStep ss⟩

lemma Stmt.check_inStep : ∀ (st : Stmt) {w : K.World}, K.Here w st.located → K.Follows w st.check st.check
  | ⟨_,.decl d⟩, w, h => d.check_inStep h.sub
  | ⟨_,.assign target value⟩, w, h => assignStmt_inStep (target.operand_inStep h.sub) (value.operand_inStep h.sub)
  | ⟨_,.expr e⟩, w, h => exprStmt_inStep (e.operand_inStep h.sub)
  | ⟨span,.ret none⟩, w, _ => bareReturnStmt_inStep span
  | ⟨_,.ret (some e)⟩, w, h => returnStmt_inStep (e.operand_inStep h.sub)
  | ⟨_,.cond c t none⟩, w, h => ifStmt_inStep (c.operand_inStep h.sub) (t.check_inStep h.sub)
  | ⟨_,.cond c t (some e)⟩, w, h =>
    ifElseStmt_inStep (c.operand_inStep h.sub) (t.check_inStep h.sub) fun w1 hle => e.check_inStep (h.mono hle).sub
  | ⟨_,.loop c b⟩, w, h => ifStmt_inStep (c.operand_inStep h.sub) (b.check_inStep h.sub)
  | ⟨_,.block b⟩, w, h => blockStmt_inStep (b.check_inStep h.sub)

/-- So is a declaration. -/
theorem Decl.check_inStep : ∀ (d : Decl) {w : K.World}, K.Here w d.located → K.Follows w d.check d.check
  | .var ⟨id,name,nameSpan,mutable,type,init,span⟩, w, h => by
    refine ifAccepted_inStep (d := .var ⟨id,name,nameSpan,mutable,type,init,span⟩) h fun b b' hb => ?_
    exact varDecl_inStep name h.sub (init.operand_inStep h.sub) fun w1 f hle => K.varDecl (K.declares_mono hle hb)
  | .const d, w, h => by
    refine ifAccepted_inStep (d := .const d) h fun b b' hb => ?_
    exact (K.constDecl hb).thenPure fun _ _ _ _ _ => trivial
  | .func ⟨id,name,nameSpan,params,ret,body,span⟩, w, h => by
    refine ifAccepted_inStep (d := .func ⟨id,name,nameSpan,params,ret,body,span⟩) h fun b b' hb => ?_
    refine funDecl_inStep (body.check_inStep (h.sub fun Γ => ?_)) fun s s' => K.function hb
    rw [Decl.located, FunDecl.located]
    grind

end

end Trees

end Opal
