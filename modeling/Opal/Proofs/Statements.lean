import Opal.Check.Statement
import Opal.Proofs.CompoundExpressions

/-!
# Statements and declarations

The rules of statements, and the examination of one declaration whose name is bound. Only the declaration of a variable and the
signature of a function change what is known of their bindings.
-/

namespace Opal

open Findings (Agrees)
open List

variable {s : State} {N : List Node} {b : BindingId}

/-! ## The rules of statements -/

section Statements

variable {o target value condition : Operand} {N N' : List Node} {body : Run Unit}

/-- An assignment is examined with its target and its value. -/
theorem assignStmt_checks (htarget : target.Examined) (hvalue : value.Examined) :
    Checks (target.expr.nodes ++ value.expr.nodes) (assignStmt target value) := by
  intro s hready hcalm
  refine Meets.bind hready (htarget.place .assign s hready.left hcalm) fun p s1 hstep hp => ?_
  have hready1 := hready.right hstep
  refine .ite (fun _ => ?_) fun _ => ?_
  · refine Meets.thenPure hready1 (hvalue.against hready1 (hcalm.step hstep) (Ty.isResult_of_isValue hp.value)) ?_
    intro t s2 _ ht ha
    exact (hp.agrees ha).covers.append ht.1.covers
  · cases p.origin <;> exact .fail hready1 _ _

lemma exprStmt_checks (ho : o.Examined) : Checks o.expr.nodes (exprStmt o) := by
  intro s hready hcalm
  exact (ho.value none s hready hcalm .none).thenPure hready fun t s1 _ ht => ht.covers

lemma Sound.isResult_resultType (h : Sound s) : (s.resultTypes.head?.getD .void).isResult = true := by
  cases hres : s.resultTypes with
  | nil => rfl
  | cons t ts => exact h.results t (hres ▸ mem_cons_self)

lemma returnStmt_checks (ho : o.Examined) : Checks o.expr.nodes (returnStmt o) := by
  intro s hready hcalm
  refine Meets.read (a := s.resultTypes.head?.getD .void) rfl ?_
  refine .ite (fun _ => ?_) fun _ => ?_
  · refine (ho.value none s hready hcalm .none).andThen hready fun t s1 hstep _ => ?_
    exact .mismatch (.nil hstep.sound) _ _ _
  · exact (ho.against hready hcalm hready.sound.isResult_resultType).thenPure hready fun t s1 _ ht => ht.1.covers

lemma bareReturnStmt_checks (span : Span) : Checks [] (bareReturnStmt span) := by
  intro s hready hcalm
  refine Meets.read (a := s.resultTypes.head?.getD .void) rfl ?_
  exact .ite (fun _ => .pure hready .nil) fun _ => .mismatch hready _ _ _

lemma blockStmt_checks [Closed N] (hbody : Examines N body) : Checks N (blockStmt body) := by
  intro s hready hcalm
  have halike := Alike.step s (e := .entered) rfl
  exact Meets.inNewScope hready.sound (Meets.lift (hbody _ (halike.ready hready hready.sound.results) (halike.calm hcalm)))
    fun _ s1 h => h.agrees (agrees_step s1 N rfl)

lemma ifStmt_checks [Closed N] (hcond : condition.Examined) (hbody : Examines N body) :
    Checks (condition.expr.nodes ++ N) (ifStmt condition body) := by
  intro s hready hcalm
  refine Meets.bind hready (hcond.against hready.left hcalm rfl) fun t s1 hstep ht => ?_
  refine (blockStmt_checks hbody s1 (hready.right hstep) (hcalm.step hstep)).mono ?_
  intro _ s2 _ hcovers ha
  exact (ht.1.agrees ha).covers.append hcovers

/-- Of a conditional the condition and both branches are examined. -/
theorem ifElseStmt_checks [Closed N] [Closed N'] {elseBranch : Check Unit} (hcond : condition.Examined)
    (hbody : Examines N body) (helse : Checks N' elseBranch) :
    Checks (condition.expr.nodes ++ N ++ N') (ifElseStmt condition body elseBranch) := by
  intro s hready hcalm
  refine Meets.bind hready (ifStmt_checks hcond hbody s hready.left hcalm) fun _ s1 hstep hcovers => ?_
  have hready1 := hready.right hstep
  refine (Meets.lift ((helse s1 hready1 (hcalm.step hstep)).reported hready1.sound)).mono ?_
  intro _ s2 _ helse ha
  exact (hcovers.agrees ha).append fun hf => helse hf hf

end Statements

/-! ## Variables -/

/-- The examination of the declaration of `b` has come to an end. -/
def SettledAt (s : State) (b : BindingId) : Prop :=
  ∃ r, s.referent? b = some r ∧ r.Settled s.Failing

lemma SettledAt.step {own : List BindingId} {s' : State}
    (h : SettledAt s b) (hs : Sound s) (hstep : Advances N own s s') : SettledAt s' b := by
  obtain ⟨r,hr,hset⟩ := h
  obtain ⟨r',hr',hm⟩ := hstep.moves hr
  exact ⟨r',hr',hset.moves (hs.wellFormed b r hr) hm hstep.errors⟩

section Variables

variable {s : State} {b : BindingId} {init : Operand} {type : Option TypeExpr} {mutable : Bool}

/-- The type of a variable is the type of a value, given or found at its initial value. -/
theorem varType_meets (name : String) (hinit : init.Examined)
    (hready : Ready (optionalTypeNodes type ++ init.expr.nodes) s) (hcalm : Calm s) :
    Meets (optionalTypeNodes type ++ init.expr.nodes) s (varType name type init) fun t s' =>
      t.isValue = true ∧ s'.Covers (optionalTypeNodes type ++ init.expr.nodes) := by
  cases type with
  | none =>
    refine (hinit.value none s hready hcalm .none).andThen hready fun t s1 hstep ht => ?_
    have hnil := Ready.nil hstep.sound
    refine .ite (fun _ => .fail hnil _ _) fun hvoid => .pure hnil fun _ => ?_
    exact ⟨Ty.isValue_of_isResult ht.result hvoid,ht.covers⟩
  | some w =>
    refine Meets.bind hready (denoteHere_meets w .value hready.left) fun t s1 hstep ht => ?_
    have hready1 := hready.right hstep
    refine Meets.thenPure hready1 (hinit.against hready1 (hcalm.step hstep) ht.result) ?_
    intro u s2 _ hu ha
    have hcomplete : s1.Complete w.nodes := w.nodes_form ▸ ht.complete
    exact ⟨ht.value rfl,.append (fun _ => hcomplete.agrees ha) hu.1.covers⟩

/-- A declaration of a variable in one step: the variable is marked, and marked again by how its examination ends. -/
theorem run_varDecl (name : String) (type : Option TypeExpr) (init : Operand) (b : BindingId) (s : State) :
    (varDecl name type init b).run s = let r := (varType name type init).run (s.marked b (·.setVarStage .initializing))
      match r.1 with
      | .ok t => (.ok (), r.2.marked b fun r => (r.setVarType t).setVarStage .initialized)
      | .error stop =>
        (.error stop, r.2.marked b fun r => (r.setVarType .error).setVarStage .failed) := by
  have hmark : (liftM (modifyReferent b (·.setVarStage .initializing)) : Check Unit).run s =
      (.ok (), s.marked b (·.setVarStage .initializing)) := rfl
  unfold varDecl
  rw [Check.run_bind, hmark]
  dsimp only
  rw [Check.run_tryCatch, Check.run_bind]
  generalize (varType name type init).run (s.marked b (·.setVarStage .initializing)) = r
  obtain ⟨r,s1⟩ := r
  cases r <;> rfl

lemma Alike.marked_stop (s : State) (b : BindingId) (f : Referent → Referent) (stop : Stop) :
    Alike ((s.step stop.event).marked b f) ((s.marked b f).step stop.event) := by
  cases stop <;> exact ⟨fun _ => rfl,fun _ => rfl,rfl,rfl,rfl,rfl,id⟩

/-- The declaration of a variable is examined without a use of the variable, which is then initialized or has failed. -/
theorem varDecl_runs (name : String) (hinit : init.Examined)
    (hready : Ready (optionalTypeNodes type ++ init.expr.nodes) s) (hcalm : Calm s)
    (hb : s.referent? b = some (.declaredVar mutable)) :
    Runs (optionalTypeNodes type ++ init.expr.nodes) [b] s (reported (varDecl name type init b))
      fun s' => SettledAt s' b ∧ s'.Covers (optionalTypeNodes type ++ init.expr.nodes) ∧
        s'.Avoids (optionalTypeNodes type ++ init.expr.nodes) b := by
  have hne : s.referent? b ≠ none := by
    rw [hb]
    exact Option.some_ne_none _
  have hmem := mem_singleton_self b
  -- While its initial value is examined, the variable cannot be used.
  have hmark : Proceeds [] [b] s (s.marked b (·.setVarStage .initializing)) :=
    (Proceeds.refl (.nil hready.sound) [b]).marked hready.sound hmem hne hb rfl (.var ..) (.initializing mutable) rfl
  have hready' := hready.after hmark.toAdvances
  have hbegun : Proceeds ([] ++ (optionalTypeNodes type ++ init.expr.nodes)) [b] s
      (s.marked b (·.setVarStage .initializing)) := hmark.weaken hready
  obtain ⟨hstep,hout⟩ := varType_meets name hinit hready' (hcalm.step hmark.toAdvances)
  unfold Runs
  rw [run_reported, run_varDecl]
  generalize (varType name type init).run (s.marked b (·.setVarStage .initializing)) = out
    at hstep hout
  obtain ⟨r,s1⟩ := out
  have hb1 : s1.referent? b = some (.var none mutable .initializing) := by
    obtain ⟨r',hr',rfl | ⟨heq,-⟩ | ⟨hown,-⟩⟩ := hstep.referents b _ (referent?_marked_self hb)
    · exact hr'
    · cases heq
    · cases hown
  have hboth := hbegun.again hready.sound hstep
  have havoids : s1.Avoids (optionalTypeNodes type ++ init.expr.nodes) b :=
    hstep.obeys.avoids fun r t hr ht => by
      cases hb1.symm.trans hr
      cases ht
  match r, hout with
  | .ok t, hout =>
    refine ⟨hboth.marked hready.sound hmem hne hb1 rfl (.var ..) (.initialized mutable hout.1) ⟨t,rfl,hout.1⟩,
      ⟨_,referent?_marked_self hb1,.inl rfl⟩,?_,havoids⟩
    exact hout.2.agrees (agrees_marked hb1 (.var ..) _)
  | .error stop, hout =>
    -- The variable is marked before the stop is entered, but not before something is known to be wrong.
    have hfailing : (s1.step stop.event).Failing := Stop.failing hout
    have hb2 : (s1.step stop.event).referent? b = some (.var none mutable .initializing) := by
      cases stop <;> exact hb1
    have hmarked := (hboth.stop hout hready.sound).marked
      (f := fun r => (r.setVarType .error).setVarStage .failed) hready.sound hmem hne hb2 rfl
      (.var ..) (.uninitialized mutable) ⟨hfailing,by simp⟩
    have hsteps := Steps.step stop.event (hboth.steps.trans (steps_marked
      (f := fun r => (r.setVarType .error).setVarStage .failed) hb1 (.uninitialized mutable))) (by cases stop <;> exact hout)
    have hproceeds := (Alike.refl s).proceeds hmarked (.marked_stop s1 b _ stop) hsteps
    cases stop with
    | error | blocked =>
      exact ⟨hproceeds hmarked.current hmarked.parents hmarked.resultTypes hready.sound,
        ⟨_,referent?_marked_self hb1,.inr rfl⟩,fun hf => absurd hfailing hf,havoids⟩

end Variables

/-! ## Functions -/

section Functions

variable {s : State} {b : BindingId}

/-- Parameters have the types of values. -/
theorem formals_meets : ∀ (ps : List Param) (s : State), Ready (paramNodes ps) s →
    Meets (paramNodes ps) s (formals ps) fun fs s' =>
      (∀ t ∈ fs.map (·.type), t.isValue = true) ∧ s'.Complete (paramNodes ps)
  | [], s, hready => by
    refine .pure hready ⟨by simp,?_⟩
    rw [paramNodes]; exact .nil
  | ⟨name,anonymous,mutable,type,span⟩ :: ps, s, hready => by
    refine Meets.bind hready (denoteHere_meets type .value hready.left) fun t s1 hstep ht => ?_
    refine Meets.thenPure (hready.right hstep) (formals_meets ps s1 (hready.right hstep)) ?_
    rintro fs s2 - ⟨hfs,hcomplete⟩ ha
    have htype : s1.Complete type.nodes := type.nodes_form ▸ ht.complete
    exact ⟨forall_mem_cons.2 ⟨ht.value rfl,hfs⟩,(htype.agrees ha).append hcomplete⟩

lemma writtenResult_meets (ret : Option TypeExpr) (hready : Ready (optionalTypeNodes ret) s) :
    Meets (optionalTypeNodes ret) s (writtenResult ret) fun t s' =>
      t.isResult = true ∧ s'.Complete (optionalTypeNodes ret) := by
  cases ret with
  | none => exact .pure hready ⟨rfl,.nil⟩
  | some w =>
    rw [optionalTypeNodes] at hready ⊢
    refine (denoteHere_meets w .result hready).mono fun t s' _ ht => ⟨ht.result,?_⟩
    exact w.nodes_form ▸ ht.complete

def FunDecl.head (d : FunDecl) : List Node :=
  paramNodes d.params ++ optionalTypeNodes d.ret

instance FunDecl.closed_head (d : FunDecl) : Closed d.head := by
  rw [FunDecl.head]; infer_instance

/-- The signature of a function, before it is noted. -/
def signatureOf (d : FunDecl) : Check (Ty × List Formal) := do
  let params ← formals d.params
  let ret ← writtenResult d.ret
  let type ← built (.function (params.map (·.type)) ret)
  return (type, params)

lemma signatureOf_meets (d : FunDecl) (hready : Ready d.head s) : Meets d.head s (signatureOf d) fun p s' =>
      (∃ ret, p.1 = .function (p.2.map (·.type)) ret ∧ p.1.isValue = true) ∧ s'.Complete d.head := by
  unfold FunDecl.head at hready ⊢
  refine Meets.bind hready (formals_meets d.params s hready.left) fun fs s1 hstep hfs => ?_
  have hready1 := hready.right hstep
  have hbuilt : Meets (optionalTypeNodes d.ret) s1 (do
        let ret ← writtenResult d.ret
        built (.function (fs.map (·.type)) ret)) fun type s' =>
      (∃ ret, type = .function (fs.map (·.type)) ret ∧ type.isValue = true) ∧ s'.Complete (optionalTypeNodes d.ret) := by
    refine Meets.built hready1 (writtenResult_meets d.ret hready1) ?_
    rintro ret s2 ⟨hret,hcomplete⟩
    refine ⟨⟨ret,rfl,(Ty.isValue_function ..).2 ⟨hfs.1,hret⟩⟩,?_⟩
    exact hcomplete.agrees (agrees_step s2 _ rfl)
  have h := Meets.thenPure (f := fun type => (type, fs)) hready1 hbuilt (Q := fun p s' =>
    Agrees (paramNodes d.params) s1.toFindings s'.toFindings →
      (∃ ret, p.1 = .function (p.2.map (·.type)) ret ∧ p.1.isValue = true) ∧
        s'.Complete (paramNodes d.params ++ optionalTypeNodes d.ret))
    fun type s2 _ htype ha => ⟨htype.1,(hfs.2.agrees ha).append htype.2⟩
  simpa only [bind_assoc] using h

/-- The signature of a function settles its binding. -/
theorem learnSignature_runs (d : FunDecl) (hready : Ready d.head s) (hb : s.referent? b = some .declaredFunc) :
    Runs d.head [b] s (reported (learnSignature b d)) fun s' =>
      SettledAt s' b ∧ s'.Covers d.head := by
  have hne : s.referent? b ≠ none := by
    rw [hb]
    exact Option.some_ne_none _
  have hrun : (learnSignature b d).run s = (do
        let p ← signatureOf d
        modifyReferent b fun _ => .func p.1 p.2 : Check Unit).run s := by
    simp only [learnSignature, signatureOf, bind_assoc, pure_bind]
  obtain ⟨hstep,hout⟩ := signatureOf_meets d hready
  unfold Runs
  rw [run_reported, hrun, Check.run_bind]
  generalize (signatureOf d).run s = out at hstep hout
  obtain ⟨r,s1⟩ := out
  have hb1 : s1.referent? b = some .declaredFunc := by
    obtain ⟨r',hr',rfl | ⟨heq,-⟩ | ⟨hown,-⟩⟩ := hstep.referents b _ hb
    · exact hr'
    · cases heq
    · cases hown
  have hown : Proceeds d.head [b] s s1 :=
    { hstep with toEvolves := hstep.mono (List.Subset.refl _) (nil_subset _) }
  match r, hout with
  | .ok (type, params), hout =>
    obtain ⟨⟨ret,htype,hvalue⟩,hcomplete⟩ := hout
    refine ⟨hown.marked hready.sound (mem_singleton_self b) hne hb1 rfl (.func ..)
      (htype ▸ .signature params ret) (.inr ⟨ret,htype,hvalue⟩),⟨_,referent?_marked_self hb1,?_⟩,fun _ => ?_⟩
    · rintro rfl
      cases htype
    · exact hcomplete.agrees (agrees_marked (f := fun _ => .func type params) hb1 (.func ..) _)
  | .error stop, hout =>
    have hfailing : (s1.step stop.event).Failing := Stop.failing hout
    refine ⟨hown.stop hout hready.sound,⟨.declaredFunc,?_,fun _ => hfailing⟩,fun hf => absurd hfailing hf⟩
    cases stop <;> exact hb1

lemma declareParams_runs (scope : ScopeId) : ∀ (ps : List Param) (fs : List Formal) (s : State),
    (∀ t ∈ fs.map (·.type), t.isValue = true) → Sound s → Runs [] [] s (declareParams scope ps fs) fun _ => True
  | p :: ps, f :: fs, s, hfs, hs => by
    have hbound := ((Meets.declareVar hs (hfs f.type mem_cons_self) scope p.name p.span
      p.mutable).thenPure (f := fun _ => ()) (Q := fun _ _ => True) (.nil hs) fun _ _ _ _ => trivial).reported hs
    refine Runs.bind (.nil hs) hbound (fun s1 hstep _ => ?_) (by simp)
    exact (declareParams_runs scope ps fs s1 (fun t ht => hfs t (mem_cons_of_mem _ ht)) hstep.sound).mono fun _ _ _ _ => trivial
  | [], _, s, _, hs | _ :: _, [], s, _, hs => .pure (.nil hs) trivial

/-- The body of a function is examined below its parameters. -/
theorem funDecl_meets [Closed N] {body : Run Unit} {t : Ty} {fs : List Formal}
    (params : List Param) (hbody : Examines N body) (hready : Ready N s) (hcalm : Calm s)
    (hb : s.referent? b = some (.func t fs)) : Meets N s (funDecl params body b) fun _ s' => s'.Covers N := by
  refine Meets.read (run_referentOf hb) ?_
  rcases hready.sound.wellFormed b _ hb with ⟨rfl,-⟩ | ⟨ret,rfl,hvalue⟩
  · exact .pure hready fun hf => absurd (hcalm.signatures b fs hb) hf
  · obtain ⟨hfs,hret⟩ := (Ty.isValue_function ..).1 hvalue
    have halike := Alike.step s (e := .entered) rfl
    have hready' := halike.ready hready hready.sound.results
    refine Meets.inNewScope hready.sound (P := fun _ s' => s'.Covers N) ?_ fun _ s1 h => h.agrees (agrees_step s1 N rfl)
    refine Meets.read (a := s.scopes.enter.current) rfl ?_
    refine Meets.bindNil hready' (Meets.lift (declareParams_runs _ params fs _ hfs hready'.sound)) fun _ s1 hstep _ => ?_
    have hready1 := hready'.after hstep
    have hreturns := Alike.step s1 (e := .called ret) rfl
    have hready2 := hreturns.ready hready1 (forall_mem_cons.2 ⟨hret,hready1.sound.results⟩)
    have hcalm2 := hreturns.calm ((halike.calm hcalm).step hstep)
    exact Meets.lift (Runs.returning hready1.sound (hbody _ hready2 hcalm2) fun s2 h => h.agrees (agrees_step s2 N rfl))

end Functions

/-- A constant is settled once it was asked for its value. -/
theorem constDecl_runs {type : Option Ty} {stage : ConstStage}
    (hs : Sound s) (hcalm : Calm s) (hb : s.referent? b = some (.const type stage)) :
    Runs [] [] s (reported (constDecl b)) fun s' => SettledAt s' b := by
  have hstage : stage ≠ .inProgress := by
    rintro rfl
    exact hcalm.idle b type hb
  have hmeets := (supplies_constantValue.meets s b type stage hs trivial hb hstage).thenPure
    (f := fun _ => ()) (Q := fun _ _ => True) (.nil hs) fun _ _ _ _ => trivial
  have hdecided : Decided ((constDecl b).run s).2 b := by
    have h := supplies_constantValue.decided s b type stage hs trivial hb hstage
    rw [constDecl, Check.run_bind]
    cases ((constantValue b).run s).1 <;> exact h
  refine ⟨(hmeets.reported hs).1,?_⟩
  obtain ⟨type',stage',hr,hdone⟩ := hdecided
  rw [run_reported]
  match ((constDecl b).run s).1 with
  | .ok () | .error .blocked | .error (.error e) => exact ⟨_,hr,hdone⟩

end Opal
