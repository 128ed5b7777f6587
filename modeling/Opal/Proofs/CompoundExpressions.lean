import Mathlib.Data.List.Perm.Basic
import Opal.Check.ArrayLiteral
import Opal.Check.LambdaExpr
import Opal.Proofs.Operands

/-!
# Array literals and lambdas

The element of an array literal that decides the type is examined first. The body of a lambda is examined in the scope of its
parameters.
-/

namespace Opal

open Findings (Agrees)
open List

variable {body : LambdaBody} {es : List Expr} {os : List Operand} {first : Operand} {check : Option Ty → Check Ty}

lemma exprNodes_eq_flatMap (es : List Expr) : exprNodes es = es.flatMap Expr.nodes :=
  eq_flatMap_of_cons rfl (fun _ _ => rfl) es

lemma exprNodes_perm {es' : List Expr} (h : es.Perm es') : (exprNodes es).Perm (exprNodes es') := by
  rw [exprNodes_eq_flatMap, exprNodes_eq_flatMap]
  exact h.flatMap_right _

lemma nodup_ids_of_exprNodes (h : ((exprNodes es).map Node.id).Nodup) : (es.map Expr.id).Nodup := by
  induction es with
  | nil => exact .nil
  | cons e es ih =>
    rw [exprNodes, map_append] at h
    have hrest := nodup_append.1 h
    refine nodup_cons.2 ⟨fun hmem => ?_,ih hrest.2.1⟩
    obtain ⟨x,hx,hid⟩ := mem_map.1 hmem
    exact disjoint_of_nodup_append h (id_mem_of_expr e.self_mem_nodes) (hid ▸ id_mem_of_expr (mem_exprNodes hx))

/-! ## Array literals -/

section Arrays

variable {s : State} {expected : Option Ty} {id : NodeId} {span : Span}

lemma Ty.fit_self_ok (t : Ty) : (Ty.fit t t).ok = true := by
  simp [Ty.fit, Ty.Fit.ok]

/-- Elements that are accepted fit the type of the elements. -/
theorem checkElements_meets {element : Ty} (helement : element.isResult = true) :
    ∀ (os : List Operand) (s : State), (∀ o ∈ os, o.Examined) → Ready (exprNodes (os.map (·.expr))) s → Calm s →
        Meets (exprNodes (os.map (·.expr))) s (checkElements element os) fun _ s' =>
          (∀ x ∈ os.map (·.expr), s'.Fits x element) ∧ s'.Covers (exprNodes (os.map (·.expr)))
  | [], s, _, hready, _ => by
    refine .pure hready ⟨by simp,?_⟩
    exact .nil
  | o :: os, s, hos, hready, hcalm => by
    have ho := hos o (.head _)
    refine Meets.bind hready (ho.against hready.left hcalm helement) fun t s1 hstep ht => ?_
    obtain ⟨ht,hfit⟩ := ht
    refine (checkElements_meets helement os s1 (fun o' ho' => hos o' (.tail _ ho'))
      (hready.right hstep) (hcalm.step hstep)).mono ?_
    rintro _ s2 _ ⟨hfits,hcovers⟩ ha
    have ht := ht.agrees ha
    refine ⟨fun x hx => ?_,ht.covers.append hcovers⟩
    rcases mem_cons.1 hx with rfl | hx
    · exact ⟨t,ht.typed,hfit⟩
    · exact hfits x hx

/-- The element that decides the type, and then the others, are all of the elements. -/
theorem perm_deciding : ∀ {os : List Operand}, first ∈ os → (os.map (·.expr.id)).Nodup →
      os.Perm (first :: os.filter fun o => o.expr.id ≠ first.expr.id)
  | o :: os, hmem, hnodup => by
    obtain ⟨hnot,hnodup⟩ := nodup_cons.1 hnodup
    by_cases hid : o.expr.id = first.expr.id
    · rcases mem_cons.1 hmem with rfl | hmem
      · rw [filter_cons_of_neg (by simp), filter_eq_self.2]
        intro x hx
        simp only [ne_eq, decide_eq_true_eq]
        exact fun h => hnot (mem_map.2 ⟨x,hx,h⟩)
      · exact absurd (mem_map.2 ⟨first,hmem,hid.symm⟩) hnot
    · have hmem : first ∈ os := (mem_cons.1 hmem).resolve_left fun h => hid (h ▸ rfl)
      rw [filter_cons_of_pos (by simpa using hid)]
      exact ((perm_deciding hmem hnodup).cons o).trans (.swap ..)

lemma mem_of_decidingElement (h : decidingElement os = some first) : first ∈ os := by
  rcases Option.or_eq_some_iff.1 h with h | ⟨-,h⟩
  · exact mem_of_find?_eq_some h
  · exact mem_of_head? h

section

variable (hos : ∀ o ∈ os, o.Examined) (hready : Ready (exprNodes (os.map (·.expr))) s) (hcalm : Calm s)
include hos hready hcalm

/-- An array literal that stands for itself has the type of the element that decides. -/
theorem ownArrayValue_meets : Meets (exprNodes (os.map (·.expr))) s (ownArrayValue os span)
      (GivesType ⟨id,span,.array (os.map (·.expr))⟩ expected) := by
  unfold ownArrayValue
  cases hfirst : decidingElement os with
  | none => exact .fail hready _ _
  | some first =>
    have hmem := mem_of_decidingElement hfirst
    have hids : (os.map (·.expr.id)).Nodup := by
      simpa [Function.comp_def] using nodup_ids_of_exprNodes hready.nodup
    have hperm := (perm_deciding hmem hids).map (·.expr)
    -- The nodes in the order in which they are examined.
    have hnodes := exprNodes_perm hperm
    have hprec (d x) := fun h => Precedes.exprs (d := d) (x := x) h hperm.symm (hready.perm hnodes).nodup
    rw [map_cons, exprNodes] at hnodes hprec
    refine Meets.perm ?_ hnodes.symm hprec
    have hready' := hready.perm hnodes
    refine Meets.bind hready' ((hos first hmem).value none s hready'.left hcalm .none) fun element s1 hstep hel => ?_
    have hrest := hready'.right hstep
    refine .ite (fun _ => .fail hrest _ _) fun hvoid => ?_
    have hchecked := checkElements_meets hel.result _ s1 (fun o ho => hos o (mem_of_mem_filter ho)) hrest (hcalm.step hstep)
    refine Meets.built (f := fun _ => .array element os.length) hrest hchecked ?_
    rintro _ s2 ⟨hfits,hcovers⟩ ha
    have hel := hel.agrees ha
    have hcovers := hcovers.agrees (agrees_step s2 _ (e := .built (.array element os.length)) rfl)
    have hvalue : (Ty.array element os.length).isValue = true := by
      rw [Ty.isValue]
      exact Ty.isValue_of_isResult hel.result hvoid
    refine .of_parts (by simp) rfl ⟨element,by simp,fun x hx => ?_⟩ (Ty.isResult_of_isValue hvalue)
      (by simp [Expr.isContextual, ExprForm.isContextual]) ?_
    · rcases mem_cons.1 (hperm.mem_iff.1 hx) with rfl | hx
      · exact ⟨element,hel.typed,element.fit_self_ok⟩
      · exact hfits x hx
    · rw [ExprForm.nodes]
      exact (hel.covers.append hcovers).perm hnodes.symm

/-- An array literal obeys its rule. -/
theorem arrayValue_meets (hexp : Expects expected) : Meets (exprNodes (os.map (·.expr))) s (arrayValue os span expected)
      (GivesType ⟨id,span,.array (os.map (·.expr))⟩ expected) := by
  cases expected with
  | none => exact ownArrayValue_meets hos hready hcalm
  | some t =>
    have hresult := hexp t rfl
    cases t with
    | array element size =>
      have hvalue : element.isValue = true := by
        have := Ty.isValue_of_isResult hresult (by simp)
        rwa [Ty.isValue] at this
      refine .ite (fun _ => .fail hready _ _) fun hlength => ?_
      refine (checkElements_meets (Ty.isResult_of_isValue hvalue) os s hos hready hcalm).thenPure hready ?_
      rintro _ s1 - ⟨hfits,hcovers⟩
      refine .of_parts (by simp) rfl ⟨element,?_,hfits⟩ hresult (by simp [Expr.isContextual, ExprForm.isContextual]) ?_
      · rw [length_map, not_not.1 hlength]
      · rw [ExprForm.nodes]
        exact hcovers
    | error => exact absurd rfl (Ty.ne_error_of_isResult hresult)
    | _ => exact ownArrayValue_meets hos hready hcalm

end

end Arrays

/-! ## Signatures of lambdas -/

section Signatures

variable {s : State}

/-- What was found for parameters: types of values, one for each. -/
structure ParamTypes (n : Nat) (N : List Node) (ts : List Ty) (s : State) : Prop where
  length : ts.length = n
  values : ∀ t ∈ ts, t.isValue = true
  complete : s.Complete N

lemma Meets.mapM {α : Type} {f : α → Check Ty} {nodes : α → List Node} [∀ a, Closed (nodes a)] :
    ∀ (l : List α) (s : State), (∀ a ∈ l, ∀ s, Ready (nodes a) s →
        Meets (nodes a) s (f a) fun t s' => t.isValue = true ∧ s'.Complete (nodes a)) → Ready (l.flatMap nodes) s →
        Meets (l.flatMap nodes) s (l.mapM f) (ParamTypes l.length (l.flatMap nodes))
  | [], s, _, hready => .pure hready ⟨rfl,by simp,.nil⟩
  | a :: l, s, hf, hready => by
    rw [mapM_cons, flatMap_cons]
    rw [flatMap_cons] at hready
    refine Meets.bind hready (hf a (.head _) s hready.left) fun t s1 hstep ht => ?_
    refine Meets.thenPure (hready.right hstep) (Meets.mapM l s1 (fun b hb => hf b (.tail _ hb)) (hready.right hstep)) ?_
    rintro ts s2 - hts ha
    refine ⟨congrArg (· + 1) hts.length,?_,(ht.2.agrees ha).append hts.complete⟩
    rintro u (_ | ⟨_,hu⟩)
    · exact ht.1
    · exact hts.values u hu

lemma lambdaParamType_meets (p : LambdaParam) (wanted : Ty) (hwanted : wanted.isValue = true) (hready : Ready p.nodes s) :
    Meets p.nodes s (lambdaParamType p wanted) fun t s' => t.isValue = true ∧ s'.Complete p.nodes := by
  obtain ⟨name,type,span⟩ := p
  rw [LambdaParam.nodes] at hready ⊢
  cases type with
  | none => exact .pure hready ⟨hwanted,.nil⟩
  | some w =>
    refine (denoteHere_meets w .value hready).andThen hready fun t s1 hstep ht => ?_
    have hnil := Ready.nil hstep.sound
    refine .ite (fun _ => .mismatch hnil _ _ _) fun _ => .pure hnil fun _ => ⟨ht.value rfl,?_⟩
    rw [optionalTypeNodes, w.nodes_form]
    exact ht.complete

lemma ownParamType_meets (p : LambdaParam) (hready : Ready p.nodes s) :
    Meets p.nodes s (ownParamType p) fun t s' => t.isValue = true ∧ s'.Complete p.nodes := by
  obtain ⟨name,type,span⟩ := p
  rw [LambdaParam.nodes] at hready ⊢
  cases type with
  | none => exact .fail hready _ _
  | some w =>
    refine (denoteHere_meets w .value hready).mono fun t s' _ ht => ⟨ht.value rfl,?_⟩
    rw [optionalTypeNodes, w.nodes_form]
    exact ht.complete

lemma lambdaParamNodes_eq_flatMap (ps : List LambdaParam) : lambdaParamNodes ps = ps.flatMap LambdaParam.nodes :=
  eq_flatMap_of_cons rfl (fun _ _ => rfl) ps

/-- The parameters of a lambda have the types of values, one for each. -/
theorem lambdaParamTypes_meets (params : List LambdaParam) (target : Option (List Ty)) (span : Span)
    (htarget : ∀ ts, target = some ts → ∀ t ∈ ts, t.isValue = true) (hready : Ready (lambdaParamNodes params) s) :
    Meets (lambdaParamNodes params) s (lambdaParamTypes params target span)
      (ParamTypes params.length (lambdaParamNodes params)) := by
  cases target with
  | none =>
    rw [lambdaParamNodes_eq_flatMap] at hready ⊢
    exact Meets.mapM params s (fun p _ s => ownParamType_meets p) hready
  | some wanted =>
    refine .ite (fun _ => .fail hready _ _) fun hlength => ?_
    have hfst : (params.zip wanted).map Prod.fst = params :=
      map_fst_zip (Nat.le_of_eq (not_not.1 hlength).symm)
    have hnodes : lambdaParamNodes params = (params.zip wanted).flatMap (·.1.nodes) := by
      rw [lambdaParamNodes_eq_flatMap, ← flatMap_map Prod.fst LambdaParam.nodes, hfst]
    rw [hnodes] at hready ⊢
    have hcount : (params.zip wanted).length = params.length := by
      rw [← length_map, hfst]
    rw [← hcount]
    refine Meets.mapM (params.zip wanted) s (fun a ha s => ?_) hready
    exact lambdaParamType_meets a.1 a.2 (htarget wanted rfl a.2 (of_mem_zip ha).2)

lemma lambdaReturn_meets (ret : Option TypeExpr) (target : Option Ty) (hexp : Expects target)
    (hready : Ready (optionalTypeNodes ret) s) :
    Meets (optionalTypeNodes ret) s (lambdaReturn ret target) fun known s' =>
      Expects known ∧ s'.Complete (optionalTypeNodes ret) := by
  cases ret with
  | none => exact .pure hready ⟨hexp,.nil⟩
  | some w =>
    refine (denoteHere_meets w .result hready).andThen hready fun t s1 hstep ht => ?_
    have hnil := Ready.nil hstep.sound
    have hcomplete : s1.Complete w.nodes := w.nodes_form ▸ ht.complete
    cases target with
    | none => exact .pure hnil fun _ => ⟨.some ht.result,hcomplete⟩
    | some wanted =>
      exact .ite (fun _ => .mismatch hnil _ _ _) fun _ =>
        .pure hnil fun _ => ⟨.some ht.result,hcomplete⟩

lemma declareLambdaParams_meets : ∀ (ps : List LambdaParam) (ts : List Ty) (s : State),
    (∀ t ∈ ts, t.isValue = true) → Sound s → Meets [] s (declareLambdaParams ps ts) fun _ _ => True
  | p :: ps, t :: ts, s, hts, hs => by
    have ht := hts t (.head _)
    refine Meets.read (a := s.scopes.current) rfl ?_
    refine (Meets.declareVar hs ht s.scopes.current p.name p.span false).andThen (.nil hs) ?_
    intro _ s1 hstep _
    exact (declareLambdaParams_meets ps ts s1 (fun u hu => hts u (.tail _ hu)) hstep.sound).mono fun _ _ _ h _ => h
  | [], _, s, _, hs | _ :: _, [], s, _, hs => .pure (.nil hs) trivial

end Signatures

/-! ## Lambdas -/

/-- The body of a lambda is examined by `check`, whatever is known of its result. -/
def LambdaBody.Examined (body : LambdaBody) (check : Option Ty → Check Ty) : Prop :=
  ∀ known s, Ready body.nodes s → Calm s → Expects known → Meets body.nodes s (check known) fun ret s' =>
      ret.isResult = true ∧ s'.ObeysBody ret body ∧ s'.Covers body.nodes

section Lambdas

variable {s : State} {expected : Option Ty} {id : NodeId} {span : Span}

/-- A function type that is expected of a lambda has the types of values for its parameters. -/
theorem expects_function {params : List Ty} {ret : Ty} (hexp : Expects expected)
    (h : expectedFunction expected = some (params, ret)) : (∀ t ∈ params, t.isValue = true) ∧ ret.isResult = true := by
  unfold expectedFunction at h
  split at h
  · next params' ret' =>
    cases h
    exact (Ty.isValue_function ..).1 (Ty.isValue_of_isResult (hexp _ rfl) (by simp))
  · cases h

/-- The body of a lambda is examined in a scope of its own, below its parameters. -/
theorem lambdaScope_meets (hbody : body.Examined check) (params : List LambdaParam) {types : List Ty} {known : Option Ty}
    (htypes : ∀ t ∈ types, t.isValue = true) (hknown : Expects known) (hready : Ready body.nodes s)
    (hcalm : Calm s) :
    Meets body.nodes s (inNewScope do
        declareLambdaParams params types
        check known) fun ret s' =>
      ret.isResult = true ∧ s'.ObeysBody ret body ∧ s'.Covers body.nodes := by
  have halike := Alike.step s (e := .entered) rfl
  have hready' := halike.ready hready hready.sound.results
  refine Meets.inNewScope hready.sound (Meets.bindNil hready'
    (declareLambdaParams_meets params types _ htypes hready'.sound) fun _ s1 hstep _ =>
      hbody known s1 (hready'.after hstep) ((halike.calm hcalm).step hstep) hknown) ?_
  rintro ret s1 ⟨hret,hobeys,hcovers⟩
  have ha := agrees_step s1 body.nodes (e := .left) rfl
  exact ⟨hret,hobeys.agrees ha,hcovers.agrees ha⟩

/-- A lambda obeys its rule. -/
theorem lambdaValue_meets {params : List LambdaParam} {ret : Option TypeExpr} (hbody : body.Examined check)
    (hready : Ready (lambdaParamNodes params ++ optionalTypeNodes ret ++ body.nodes) s)
    (hcalm : Calm s) (hexp : Expects expected) : Meets (lambdaParamNodes params ++ optionalTypeNodes ret ++ body.nodes) s
      (lambdaValue params ret check span expected) (GivesType ⟨id,span,.lambda params ret body⟩ expected) := by
  have htarget : (∀ ts, (expectedFunction expected).map (·.1) = some ts → ∀ t ∈ ts, t.isValue = true) ∧
      Expects ((expectedFunction expected).map (·.2)) := by
    constructor
    · intro ts hts
      obtain ⟨⟨params,ret⟩,h,rfl⟩ := Option.map_eq_some_iff.1 hts
      exact (expects_function hexp h).1
    · intro t ht
      obtain ⟨⟨params,ret⟩,h,rfl⟩ := Option.map_eq_some_iff.1 ht
      exact (expects_function hexp h).2
  rw [append_assoc] at hready ⊢
  refine Meets.bind hready (lambdaParamTypes_meets params _ span htarget.1 hready.left) fun types s1 hstep htypes => ?_
  have hready1 := hready.right hstep
  refine Meets.bind hready1 (lambdaReturn_meets ret _ htarget.2 hready1.left) fun known s2 hstep2 hknown => ?_
  have hready2 := hready1.right hstep2
  refine Meets.built (f := fun result => .function types result) hready2
    (lambdaScope_meets hbody params htypes.values hknown.1 hready2 ((hcalm.step hstep).step hstep2)) ?_
  rintro result s3 ⟨hresult,hobeys,hcovers⟩ ha2 ha1
  have ha := agrees_step s3 body.nodes (e := .built (.function types result)) rfl
  have hvalue : (Ty.function types result).isValue = true :=
    (Ty.isValue_function ..).2 ⟨htypes.values,hresult⟩
  refine .of_parts (by simp) rfl ⟨types,result,rfl,htypes.length,hobeys.agrees ha⟩
    (Ty.isResult_of_isValue hvalue) (by simp [Expr.isContextual, ExprForm.isContextual]) fun hf => ?_
  exact ((htypes.complete.agrees ha1).append (hknown.2.agrees ha2)).append (hcovers.agrees ha hf)

lemma exprBody_examined {o : Operand} (ho : o.Examined) : (LambdaBody.expr o.expr).Examined (exprBody o) := by
  intro known s hready hcalm hknown
  have hagainst {ret : Ty} (hret : ret.isResult = true) : Meets o.expr.nodes s (do
          let _ ← o.against ret
          return ret) fun ret s' =>
        ret.isResult = true ∧ s'.ObeysBody ret (.expr o.expr) ∧ s'.Covers o.expr.nodes :=
    (ho.against hready hcalm hret).thenPure hready fun t s' _ ht =>
      ⟨hret,⟨t,ht.1.typed,.inr ht.2⟩,ht.1.covers⟩
  cases known with
  | none =>
    refine (ho.value none s hready hcalm .none).mono fun t s' _ ht => ?_
    exact ⟨ht.result,⟨t,ht.typed,.inr t.fit_self_ok⟩,ht.covers⟩
  | some ret =>
    have hret := hknown ret rfl
    cases ret with
    | void =>
      refine (ho.value none s hready hcalm .none).thenPure hready fun t s' _ ht => ?_
      exact ⟨rfl,⟨t,ht.typed,.inl rfl⟩,ht.covers⟩
    | _ => exact hagainst hret

lemma blockBody_examined {b : Block} {check : Run Unit} (hb : Examines b.nodes check) :
    (LambdaBody.block b).Examined (blockBody check) := by
  intro known s hready hcalm hknown
  have hret : (known.getD .void).isResult = true := by
    cases known with
    | none => rfl
    | some ret => exact hknown ret rfl
  have halike := Alike.step s (e := .called (known.getD .void)) rfl
  have hready' := halike.ready hready (forall_mem_cons.2 ⟨hret,hready.sound.results⟩)
  have hruns := Runs.returning (Q := fun s' => s'.Covers b.nodes) hready.sound
    (hb _ hready' (halike.calm hcalm)) fun s1 h => h.agrees (agrees_step s1 _ rfl)
  exact (Meets.lift hruns).thenPure hready fun _ s' _ hcovers => ⟨hret,trivial,hcovers⟩

end Lambdas

end Opal
