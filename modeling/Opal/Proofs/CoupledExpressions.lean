import Opal.Check.Tree
import Opal.Proofs.Calls
import Opal.Proofs.CoupledConstants

/-!
# Expressions in two runs

Two runs that examine the same expression keep in step, for all couplings that the elementary steps keep up.
-/

namespace Opal

open Coupling (InStep RunInStep)

variable {b b' : BindingId} {os : List Operand} {id : NodeId} {r : Referent} {span : Span} {name : String} {t : Ty}

def Referent.isVar : Referent → Bool
  | .var .. => true
  | .const .. | .func .. => false

/-- The changes that the examination of a variable makes. -/
inductive Referent.VarChange (value : Ty → Prop) : (Referent → Referent) → Prop where
  | initializing : VarChange value (·.setVarStage .initializing)
  | initialized {t : Ty} (ht : value t) :
    VarChange value fun r => (r.setVarType t).setVarStage .initialized
  | failed : VarChange value fun r => (r.setVarType .error).setVarStage .failed

/-- What corresponding names are bound to. Constants may have come to different stages. -/
inductive Referent.Alike (result value : Ty → Prop) : Referent → Referent → Prop where
  | var {type : Option Ty} {stage : VarStage} (mutable : Bool)
    (h : stage = .initialized → ∃ t, type = some t ∧ value t) :
    Alike result value (.var type mutable stage) (.var type mutable stage)
  | const (type type' : Option Ty) {stage stage' : ConstStage}
    (h : stage = .inProgress ↔ stage' = .inProgress) :
    Alike result value (.const type stage) (.const type' stage')
  | func {t : Ty} {params : List Formal} (ht : t ≠ .error → result t)
    (hparams : ∀ p ∈ params, value p.type) : Alike result value (.func t params) (.func t params)

lemma Referent.Alike.akin {result value : Ty → Prop} {r' : Referent} (h : r.Alike result value r') : r.Akin r' := by
  cases h with
  | var => exact .var ..
  | const type type' h => exact .const type type' h
  | func => exact .func ..

/-- A coupling that the examinations of written types keep up. -/
structure TypeCoupling extends NameCoupling where
  strict : ¬ lax
  stops : ∀ {w e e' s s'}, stopped w (e, s) (e', s') → e = e' ∧ ∃ w', le w w' ∧ rel w' s s'
  /-- The current scopes of the two runs. -/
  current : World → ScopeId × ScopeId
  current_eq : ∀ {w s s'}, rel w s s' → (s.scopes.current, s'.scopes.current) = current w
  current_mono : ∀ {w w'}, le w w' → current w' = current w
  constant : ∀ {w b b' s s' type stage}, binding w b b' → rel w s s' → s.referent? b = some (.const type stage) →
      toCoupling.Ends w (fun _ v v' => v = v') ((constantValue b).run s) ((constantValue b').run s')

namespace TypeCoupling

variable {K : TypeCoupling} {w w' : K.World} {l l' : Env → List (Node × Env)}

/-- The nodes of a tree may be examined in the current scopes. -/
def Here (K : TypeCoupling) (w : K.World) (l : Env → List (Node × Env)) : Prop :=
  K.Sees w (K.current w).1 (K.current w).2 l

lemma Here.mono (h : K.Here w l) (hle : K.le w w') : K.Here w' l := by
  unfold Here at h ⊢
  rw [K.current_mono hle]
  exact h.mono hle

lemma Here.sub (h : K.Here w l) (hsub : ∀ Γ, l' Γ ⊆ l Γ := by simp) : K.Here w l' :=
  ConstantCoupling.Sees.sub h hsub

end TypeCoupling

/-- A coupling that the steps of all examinations keep up. -/
structure TreeCoupling extends TypeCoupling where
  alike : ∀ {w b b' s s'}, binding w b b' → rel w s s' → ∃ r r', s.referent? b = some r ∧
    s'.referent? b' = some r' ∧ Referent.Alike (result w) (value w) r r'
  /-- The result types of the functions and lambdas around. -/
  results : World → List Ty
  results_mono : ∀ {w w'}, le w w' → results w' = results w
  resultTypes : ∀ {w s s'}, rel w s s' → s.resultTypes = results w ∧ s'.resultTypes = results w ∧ ∀ t ∈ results w, result w t
  /-- The current scope of the second world was opened in the first one, and declares these names so far. -/
  opening : World → World → Frame → Prop
  ended : ∀ {w s s'} (stop : Stop), rel w s s' → ∃ w', le w w' ∧
    (∀ {w0 F}, opening w0 w F → opening w0 w' F) ∧ rel w' (s.step stop.event) (s'.step stop.event)
  called : ∀ {w s s' ret}, result w ret → rel w s s' → ∃ w',
    (∀ {w0 F}, opening w0 w F → opening w0 w' F) ∧ results w' = ret :: results w ∧
      (∀ t, result w t → result w' t) ∧ (∀ t, value w t → value w' t) ∧ rel w' (s.step (.called ret)) (s'.step (.called ret))
  /-- The declaration introduces these bindings in the two runs. -/
  declares : World → Decl → BindingId → BindingId → Prop
  declares_mono : ∀ {w w' d b b'}, le w w' → declares w d b b' → declares w' d b b'
  accepted : ∀ {w d s s'}, toConstantCoupling.Sees w (current w).1 (current w).2 (Decl.located d) →
    rel w s s' → (s.introduces[d.id]? = none ∧ s'.introduces[d.id]? = none) ∨
      ∃ b b', s.introduces[d.id]? = some b ∧ s'.introduces[d.id]? = some b' ∧ declares w d b b'
  constDecl : ∀ {w d b b'}, declares w (.const d) b b' →
    toCoupling.Follows w (constantValue b) (constantValue b')
  varDecl : ∀ {w d b b' f}, declares w (.var d) b b' → Referent.VarChange (value w) f →
    toCoupling.RunFollows w (modifyReferent b f) (modifyReferent b' f)
  signature : ∀ {w d b b'} {params : List Formal} {ret : Ty}, declares w (.func d) b b' →
    params.length = d.params.length → (∀ p ∈ params, value w p.type) → result w (.function (params.map (·.type)) ret) →
        toCoupling.RunInStep w (modifyReferent b fun _ => .func (.function (params.map (·.type)) ret) params)
          (modifyReferent b' fun _ => .func (.function (params.map (·.type)) ret) params)
          fun _ _ _ => True
  function : ∀ {w d b b' s s'}, declares w (.func d) b b' → rel w s s' → ∃ r r',
    s.referent? b = some r ∧ s'.referent? b' = some r' ∧ Referent.Alike (result w) (value w) r r' ∧
        ∀ t params, r = .func t params → t ≠ .error → params.length = d.params.length
  /-- The current scope of the second world was opened in the first one, and declares these names and no more. -/
  opened : World → World → Frame → Prop
  opened_of_opening : ∀ {w w1 F}, opening w w1 F → opened w w1 F
  opened_mono : ∀ {w w1 w2 F}, opened w w1 F → le w1 w2 → opened w w2 F
  opened_stands : ∀ {w w1 F Γ}, opened w w1 F → stands w (current w).1 (current w).2 Γ →
    stands w1 (current w1).1 (current w1).2 (F :: Γ)
  returned : ∀ {w s s'}, rel w s s' → ∃ w', (∀ {w0 F}, opened w0 w F → opened w0 w' F) ∧
    results w' = (results w).tail ∧ (∀ t, result w t → result w' t) ∧
      (∀ t, value w t → value w' t) ∧ rel w' (s.step .returned) (s'.step .returned)
  enter : ∀ {w s s'}, rel w s s' → ∃ w1, opening w w1 [] ∧ results w1 = results w ∧ rel w1 (s.step .entered) (s'.step .entered) ∧
      (∀ t, result w t → result w1 t) ∧ ∀ t, value w t → value w1 t
  leave : ∀ {w w1 F s s'}, opened w w1 F → results w1 = results w → rel w1 s s' → ∃ w2, le w w2 ∧
    rel w2 (s.step .left) (s'.step .left) ∧ ∀ t, result w1 t → result w2 t
  declareParam : ∀ {w w1 F s s' t} (d : Declarator) (mutable : Bool), d.node = none → opening w w1 F → value w1 t → rel w1 s s' →
      (∃ e, opening w w1 (F ++ [d]) ∧ (declareIn s.scopes.current d.name d.span (.initializedVar t mutable)).run s =
          (.error (.error e), s) ∧
        (declareIn s'.scopes.current d.name d.span (.initializedVar t mutable)).run s' = (.error (.error e), s')) ∨
      ∃ w2 b b' s1 s1', opening w w2 (F ++ [d]) ∧ results w2 = results w1 ∧ rel w2 s1 s1' ∧
        (∀ t, result w1 t → result w2 t) ∧ (∀ t, value w1 t → value w2 t) ∧
        (declareIn s.scopes.current d.name d.span (.initializedVar t mutable)).run s = (.ok b, s1) ∧
        (declareIn s'.scopes.current d.name d.span (.initializedVar t mutable)).run s' = (.ok b', s1')
  declareNames : ∀ {w w1 F Γ s s'} (decls : List Decl), opening w w1 F → stands w (current w).1 (current w).2 Γ →
    (∀ d ∈ decls, ∀ x ∈ d.located ((F ++ decls.map Decl.declarator) :: Γ), site x.1 x.2) →
      rel w1 s s' → ∃ w2, opened w w2 (F ++ decls.map Decl.declarator) ∧ results w2 = results w1 ∧
        rel w2 ((decls.forM (declareOne s.scopes.current)).run s).2 ((decls.forM (declareOne s'.scopes.current)).run s').2 ∧
        (∀ t, result w1 t → result w2 t) ∧ ∀ t, value w1 t → value w2 t

namespace TreeCoupling

variable {K : TreeCoupling} {w w' : K.World}

/-- The examinations of an operand keep in step from now on. -/
structure Examines (K : TreeCoupling) (w : K.World) (o : Operand) : Prop where
  value : ∀ w1, K.le w w1 → ∀ expected, K.Expects w1 expected → K.Same w1 (o.value expected) K.result
  place : ∀ w1, K.le w w1 → ∀ use, K.Same w1 (o.place use) fun w' p => K.value w' p.type

lemma Examines.mono {o : Operand} (h : K.Examines w o) (hle : K.le w w') : K.Examines w' o :=
  ⟨fun w1 hle1 => h.value w1 (K.le_trans hle hle1),fun w1 hle1 => h.place w1 (K.le_trans hle hle1)⟩

end TreeCoupling

/-! ## Written types -/

section Types

variable {K : TypeCoupling} {w : K.World}

lemma currentScope_inStep {α : Type} {f f' : ScopeId → Check α}
    {P : K.World → α → α → Prop} (h : K.InStep w (f (K.current w).1) (f' (K.current w).2) P) :
    K.InStep w (liftM currentScope >>= f) (liftM currentScope >>= f') P := by
  refine .read fun s s' hrel => ⟨s.scopes.current,s'.scopes.current,rfl,rfl,?_⟩
  have hcurrent := K.current_eq hrel
  rw [show s.scopes.current = (K.current w).1 from congrArg Prod.fst hcurrent,
    show s'.scopes.current = (K.current w).2 from congrArg Prod.snd hcurrent]
  exact h s s' hrel

lemma names_constantValue : K.Names constantValue constantValue :=
  constantName_inStep fun hb hrel hr _ => K.constant hb hrel hr

lemma denoteHere_inStep {t : TypeExpr} (h : K.Here w t.located) (position : Position) :
    K.Same w (denoteHere t position) fun w' t => K.KnownAt w' position t :=
  currentScope_inStep (t.denote_inStep names_constantValue position h)

lemma formals_inStep : ∀ (ps : List Param) {w : K.World}, K.Here w (locatedParams ps) →
    K.Same w (formals ps) fun w' fs => fs.length = ps.length ∧ ∀ f ∈ fs, K.value w' f.type
  | [], _, _ => .pure ⟨rfl,rfl,nofun⟩
  | ⟨name,anonymous,mutable,type,span⟩ :: ps, w, h => by
    refine (denoteHere_inStep h.sub .value).bind ?_
    rintro w1 t _ hle ⟨rfl,ht⟩
    refine (formals_inStep ps (h.mono hle).sub).thenPure ?_
    rintro w2 fs _ hle2 ⟨rfl,hlen,hfs⟩
    exact ⟨rfl,by simp [hlen],List.forall_mem_cons.2 ⟨K.value_mono hle2 ht,hfs⟩⟩

lemma writtenResult_inStep {ret : Option TypeExpr} (h : K.Here w (locatedOptionalType ret)) :
    K.Same w (writtenResult ret) K.result := by
  cases ret with
  | none => exact .pure ⟨rfl,K.result_void w⟩
  | some t => exact denoteHere_inStep h.sub .result

lemma learnSignature_inStep {d : FunDecl} (h : K.Here w (Decl.func d).located)
    (hnote : ∀ w1 (params : List Formal) (ret : Ty), K.le w w1 → params.length = d.params.length →
      (∀ p ∈ params, K.value w1 p.type) → K.result w1 (.function (params.map (·.type)) ret) → K.RunInStep w1
          (modifyReferent b fun _ => .func (.function (params.map (·.type)) ret) params)
          (modifyReferent b' fun _ => .func (.function (params.map (·.type)) ret) params) fun _ _ _ => True) :
    K.Follows w (learnSignature b d) (learnSignature b' d) := by
  refine (formals_inStep d.params (h.sub fun Γ => ?_)).bind ?_
  · obtain ⟨id,name,nameSpan,params,ret,body,span⟩ := d
    simp
  rintro w1 fs _ hle ⟨rfl,hlen,hfs⟩
  refine (writtenResult_inStep ((h.mono hle).sub fun Γ => ?_)).bind ?_
  · obtain ⟨id,name,nameSpan,params,ret,body,span⟩ := d
    simp
  rintro w2 t _ hle2 ⟨rfl,ht⟩
  have hparts : (Ty.function (fs.map (·.type)) t).HasParts (K.result w2) (K.value w2) := by
    refine ⟨fun u hu => ?_,ht⟩
    obtain ⟨f,hf,rfl⟩ := List.mem_map.1 hu
    exact K.value_mono hle2 (hfs f hf)
  refine (built_eq_inStep hparts (by simp) (by simp)).bind ?_
  rintro w3 _ _ hle3 ⟨rfl,rfl,hu⟩
  have hle' := K.le_trans hle2 hle3
  exact .lift (hnote w3 fs t (K.le_trans hle hle') hlen (fun f hf => K.value_mono hle' (hfs f hf)) (K.result_of_value hu))

end Types

section Rules

variable {K : TreeCoupling} {w : K.World} {expected : Option Ty}

/-! ## Names -/

lemma bindingNamed_inStep (h : K.Here w (Expr.located ⟨id,span,.name name⟩)) :
    K.InStep w (bindingNamed id name span) (bindingNamed id name span) K.binding :=
  currentScope_inStep (K.find h)

/-- The value of a name has the same type in both runs. That of a variable is the type of a value. -/
theorem readBinding_ends {s s' : State}
    (hb : K.binding w b b') (hrel : K.rel w s s') (hr : s.referent? b = some r) (name : String) (span : Span) :
    K.Ends w (fun w' t t' => t = t' ∧ K.result w' t ∧ (r.isVar = true → K.value w' t))
      ((readBinding b name span).run s) ((readBinding b' name span).run s') := by
  obtain ⟨r1,r',hr1,hr',halike⟩ := K.alike hb hrel
  obtain rfl := Option.mem_unique hr hr1
  unfold readBinding
  rw [Check.run_bind, run_referentOf hr, Check.run_bind, run_referentOf hr']
  cases halike with
  | @var type stage mutable h =>
    cases stage with
    | initialized =>
      obtain ⟨t,rfl,ht⟩ := h rfl
      exact InStep.pure ⟨rfl,K.result_of_value ht,fun _ => ht⟩ s s' hrel
    | failed => cases type <;> exact InStep.blocked s s' hrel
    | declared | initializing => cases type <;> exact InStep.fail _ _ s s' hrel
  | const type type' hstage =>
    refine (K.constant hb hrel hr).bind ?_
    rintro w1 v _ s1 s1' - hrel1 rfl
    exact InStep.pure ⟨rfl,K.result_of_value (K.value_type w1 v),nofun⟩ s1 s1' hrel1
  | @func t params ht hparams =>
    exact InStep.ite (fun _ => .blocked) (fun hne => .pure ⟨rfl,ht hne,nofun⟩) s s' hrel

lemma readName_inStep (h : K.Here w (Expr.located ⟨id,span,.name name⟩)) : K.Same w (readName id name span) K.result := by
  refine (bindingNamed_inStep h).bind fun w1 b b' _ hb s s' hrel => ?_
  obtain ⟨r,r',hr,-⟩ := K.alike hb hrel
  exact (readBinding_ends hb hrel hr name span).mono (K.le_refl w1) fun _ _ _ _ ht => ⟨ht.1,ht.2.1⟩

lemma namedPlace_inStep (h : K.Here w (Expr.located ⟨id,span,.name name⟩)) (use : PlacePurpose) :
    K.Same w (namedPlace id name span use) fun w' p => K.value w' p.type := by
  refine (bindingNamed_inStep h).bind fun w1 b b' _ hb => .read fun s s' hrel => ?_
  obtain ⟨r,r',hr,hr',halike⟩ := K.alike hb hrel
  refine ⟨r,r',run_referentOf hr,run_referentOf hr',?_⟩
  cases halike with
  | var mutable =>
    refine (readBinding_ends hb hrel hr name span).bind ?_
    rintro w2 t _ s1 s1' - hrel1 ⟨rfl,-,ht⟩
    exact InStep.pure ⟨rfl,ht rfl⟩ s1 s1' hrel1
  | const | func => cases use <;> exact InStep.fail _ _ s s' hrel

/-! ## Operators -/

variable {o left right base index : Operand}

lemma Operand.against_inStep (h : K.Examines w o) (ht : K.result w t) : K.Same w (o.against t) K.result := by
  refine (h.value w (K.le_refl w) _ (.some ht)).bind ?_
  rintro w1 u _ - ⟨rfl,hu⟩
  exact .ite (fun _ => .pure ⟨rfl,hu⟩) fun _ => .mismatch _ _ _

section

variable (hl : K.Examines w left) (hr : K.Examines w right) (hexp : K.Expects w expected)
include hl hr hexp

lemma operandTypes_inStep (op : BinaryOp) :
    K.Same w (operandTypes op left right expected) fun w' p => K.result w' p.1 ∧ K.result w' p.2 := by
  have hfirst := hexp.firstExpected op
  refine .ite (fun _ => ?_) fun _ => ?_
  · refine (hr.value w (K.le_refl w) _ hfirst).bind ?_
    rintro w1 t _ hle ⟨rfl,ht⟩
    refine (hl.value w1 hle _ (.some ht)).thenPure ?_
    rintro w2 u _ hle2 ⟨rfl,hu⟩
    exact ⟨rfl,hu,K.result_mono hle2 ht⟩
  · refine (hl.value w (K.le_refl w) _ hfirst).bind ?_
    rintro w1 t _ hle ⟨rfl,ht⟩
    refine (hr.value w1 hle _ (.some ht)).thenPure ?_
    rintro w2 u _ hle2 ⟨rfl,hu⟩
    exact ⟨rfl,K.result_mono hle2 ht,hu⟩

lemma binaryValue_inStep (op : BinaryOp) : K.Same w (binaryValue op left right expected) K.result := by
  refine (operandTypes_inStep hl hr hexp op).bind ?_
  rintro w1 ⟨l,r⟩ _ - ⟨rfl,hl,-⟩
  refine .ite (fun _ => .mismatch _ _ _) fun _ => .ite (fun _ => .mismatch _ _ _) fun _ =>
    .pure ⟨rfl,?_⟩
  split
  · exact hl
  · exact K.result_of_value (K.value_bool w1)

end

section

variable (h : K.Examines w o)
include h

lemma negationValue_inStep (hexp : K.Expects w expected) (span : Span) : K.Same w (negationValue o span expected) K.result := by
  unfold negationValue
  cases o.expr.literal? with
  | some text =>
    refine (literalOfType_inStep text true span expected).bind ?_
    rintro w1 v _ - rfl
    have ht := K.result_of_value (K.value_type w1 v)
    exact .perform (K.typed _ ht) fun _ hle => .pure ⟨rfl,K.result_mono hle ht⟩
  | none =>
    refine (h.value w (K.le_refl w) _ hexp).bind ?_
    rintro w1 t _ - ⟨rfl,ht⟩
    cases t with
    | int i => exact .ite (fun _ => .pure ⟨rfl,ht⟩) fun _ => .mismatch _ _ _
    | error => exact .pure ⟨rfl,ht⟩
    | _ => exact .mismatch _ _ _

lemma complementValue_inStep : K.Same w (complementValue o) K.result :=
  (Operand.against_inStep h (K.result_of_value (K.value_bool w))).thenPure
    fun w1 _ _ _ _ => ⟨rfl,K.result_of_value (K.value_bool w1)⟩

lemma addressValue_inStep : K.Same w (addressValue o) K.result := by
  refine (h.place w (K.le_refl w) _).bind ?_
  rintro w1 p _ - ⟨rfl,hp⟩
  exact built_inStep (t := .reference p.mutable p.type) hp (by simp) (by simp) .result

lemma derefPlace_inStep : K.Same w (derefPlace o) fun w' p => K.value w' p.type := by
  refine (h.value w (K.le_refl w) _ .none).bind ?_
  rintro w1 t _ - ⟨rfl,ht⟩
  cases t with
  | reference mutable target => exact .pure ⟨rfl,K.parts ht⟩
  | _ => exact .mismatch _ _ _

lemma derefValue_inStep : K.Same w (derefValue o) K.result := by
  refine (derefPlace_inStep h).thenPure ?_
  rintro w1 p _ - ⟨rfl,hp⟩
  exact ⟨rfl,K.result_of_value hp⟩

end

lemma elementType_inStep (ht : K.result w t) (h : K.Examines w index) (span : Span) :
    K.Same w (elementType t span index) K.value := by
  cases t with
  | array element size =>
    have helement : K.value w element := K.parts ht
    refine .ite (fun _ => ?_) fun _ => ?_
    · refine (h.value w (K.le_refl w) _ (.some (K.result_of_value (K.value_int w .u32)))).thenPure ?_
      exact fun _ _ _ hle _ => ⟨rfl,K.value_mono hle helement⟩
    · refine (h.value w (K.le_refl w) _ .none).bind ?_
      rintro w1 u _ hle ⟨rfl,-⟩
      exact .ite (fun _ => .pure ⟨rfl,K.value_mono hle helement⟩) fun _ => .mismatch _ _ _
  | _ => exact .mismatch _ _ _

lemma indexValue_inStep (hbase : K.Examines w base) (hindex : K.Examines w index) :
    K.Same w (indexValue base index) K.result := by
  refine (hbase.value w (K.le_refl w) _ .none).bind ?_
  rintro w1 t _ hle ⟨rfl,ht⟩
  exact (elementType_inStep ht (hindex.mono hle) _).mono fun _ _ _ _ hu => ⟨hu.1,K.result_of_value hu.2⟩

lemma indexPlace_inStep (hbase : K.Examines w base) (hindex : K.Examines w index)
    (use : PlacePurpose) : K.Same w (indexPlace base index use) fun w' p => K.value w' p.type := by
  refine (hbase.place w (K.le_refl w) use).bind ?_
  rintro w1 p _ hle ⟨rfl,hp⟩
  refine (elementType_inStep (K.result_of_value hp) (hindex.mono hle) _).thenPure ?_
  rintro w2 t _ - ⟨rfl,ht⟩
  exact ⟨rfl,ht⟩

lemma checkElements_inStep : ∀ (os : List Operand) {w : K.World}, K.result w t →
    (∀ o ∈ os, K.Examines w o) → K.Same w (checkElements t os) fun _ _ => True
  | [], _, _, _ => .pure ⟨rfl,trivial⟩
  | o :: os, w, ht, hos => by
    refine (Operand.against_inStep (hos o (.head _)) ht).bind fun w1 _ _ hle _ => ?_
    exact checkElements_inStep os (K.result_mono hle ht) fun o' ho' => (hos o' (.tail _ ho')).mono hle

lemma ownArrayValue_inStep (hos : ∀ o ∈ os, K.Examines w o) (span : Span) : K.Same w (ownArrayValue os span) K.result := by
  unfold ownArrayValue
  cases hfirst : decidingElement os with
  | none => exact .fail _ _
  | some first =>
    refine ((hos first (mem_of_decidingElement hfirst)).value w (K.le_refl w) _ .none).bind ?_
    rintro w1 t _ hle ⟨rfl,ht⟩
    refine .ite (fun _ => .fail _ _) fun hvoid => ?_
    refine (checkElements_inStep _ ht fun o ho => (hos o (List.mem_of_mem_filter ho)).mono hle).bind ?_
    intro w2 _ _ hle2 _
    have hvalue : K.value w2 t := K.value_mono hle2 (K.value_of_result ht hvoid)
    exact built_inStep (t := .array t os.length) hvalue (by simp) (by simp) .result

lemma arrayValue_inStep (hos : ∀ o ∈ os, K.Examines w o) (span : Span) (expected : Option Ty) (hexp : K.Expects w expected) :
    K.Same w (arrayValue os span expected) K.result := by
  have hown := ownArrayValue_inStep hos span
  cases expected with
  | none => exact hown
  | some t =>
    have ht : K.result w t := hexp t rfl
    cases t with
    | array element size =>
      refine .ite (fun _ => .fail _ _) fun _ => ?_
      refine (checkElements_inStep os (K.result_of_value (K.parts ht)) hos).thenPure ?_
      exact fun _ _ _ hle _ => ⟨rfl,K.result_mono hle ht⟩
    | error => exact .blocked
    | _ => exact hown

/-! ## Calls -/

lemma checkArguments_inStep : ∀ (ts : List Ty) (args : List ArgumentOperand) {w : K.World},
    (∀ t ∈ ts, K.value w t) → (∀ a ∈ args, K.Examines w a.value) → K.Same w (checkArguments ts args) fun _ _ => True
  | [], _, _, _, _ | _ :: _, [], _, _, _ => .pure ⟨rfl,trivial⟩
  | t :: ts, a :: args, w, hts, hargs => by
    refine (Operand.against_inStep (hargs a (.head _)) (K.result_of_value (hts t (.head _)))).bind fun w1 _ _ hle _ => ?_
    exact checkArguments_inStep ts args (fun t' ht' => K.value_mono hle (hts t' (.tail _ ht')))
      fun a' ha' => (hargs a' (.tail _ ha')).mono hle

variable {args : List ArgumentOperand}

lemma namedCall_inStep {params : List Formal} (ht : K.result w t)
    (hparams : ∀ p ∈ params, K.value w p.type) (hargs : ∀ a ∈ args, K.Examines w a.value) (name : String) (span : Span) :
    K.Same w (namedCall name t params args span) K.result := by
  cases t with
  | function ts ret =>
    refine InStep.bind (P := fun _ l l' => l = l' ∧ ∀ a ∈ l, a ∈ args)
      (.ofExcept fun l hl => ⟨rfl,fun a ha => (bindArguments_perm hl).1.mem_iff.1 ha⟩) ?_
    rintro w1 bound _ hle ⟨rfl,hbound⟩
    refine (checkArguments_inStep (params.map (·.type)) bound (fun t ht => ?_) fun a ha =>
      (hargs a (hbound a ha)).mono hle).thenPure fun _ _ _ hle2 _ => ?_
    · obtain ⟨p,hp,rfl⟩ := List.mem_map.1 ht
      exact K.value_mono hle (hparams p hp)
    · exact ⟨rfl,K.result_mono (K.le_trans hle hle2) (K.parts ht).2⟩
  | _ => exact .blocked

lemma valueCall_inStep (h : K.Examines w o) (hargs : ∀ a ∈ args, K.Examines w a.value)
    (span : Span) : K.Same w (valueCall o args span) K.result := by
  refine (h.value w (K.le_refl w) _ .none).bind ?_
  rintro w1 t _ hle ⟨rfl,ht⟩
  cases t with
  | function params ret =>
    have hparts := K.parts ht
    cases args.find? (·.name.isSome) with
    | some a => exact .fail _ _
    | none =>
      refine .ite (fun _ => .fail _ _) fun _ => ?_
      refine (checkArguments_inStep params args hparts.1 fun a ha => (hargs a ha).mono hle).thenPure ?_
      exact fun _ _ _ hle2 _ => ⟨rfl,K.result_mono hle2 hparts.2⟩
  | _ => exact .mismatch _ _ _

lemma Expr.located_withoutParens_subset (e : Expr) (Γ : Env) : e.withoutParens.located Γ ⊆ e.located Γ := by
  obtain ⟨id,span,form⟩ := e
  cases form with
  | paren e => exact List.Subset.trans (e.located_withoutParens_subset Γ) (List.subset_append_left _ _)
  | _ => exact List.Subset.refl _

lemma callValue_inStep (hhere : K.Here w o.expr.located) (h : K.Examines w o)
    (hargs : ∀ a ∈ args, K.Examines w a.value) (span : Span) : K.Same w (callValue o args span) K.result := by
  unfold callValue
  have htarget : K.Here w o.expr.withoutParens.located :=
    hhere.sub fun Γ => o.expr.located_withoutParens_subset Γ
  generalize o.expr.withoutParens = target at htarget ⊢
  obtain ⟨id,targetSpan,form⟩ := target
  cases form with
  | name name =>
    refine (bindingNamed_inStep htarget).bind fun w1 b b' hle hb => .read fun s s' hrel => ?_
    obtain ⟨r,r',hr,hr',halike⟩ := K.alike hb hrel
    refine ⟨r,r',run_referentOf hr,run_referentOf hr',?_⟩
    cases halike with
    | @func t params ht hparams =>
      refine (readBinding_ends hb hrel hr name targetSpan).bind ?_
      rintro w2 u _ s1 s1' hle2 hrel1 ⟨rfl,hu,-⟩
      refine InStep.perform (K.typed id hu) (fun w3 hle3 => ?_) s1 s1' hrel1
      refine .perform (K.typed _ (K.result_mono hle3 hu)) fun w4 hle4 => ?_
      have hle' := K.le_trans hle2 (K.le_trans hle3 hle4)
      exact namedCall_inStep (K.result_mono (K.le_trans hle3 hle4) hu) (fun p hp => K.value_mono hle' (hparams p hp))
        (fun a ha => (hargs a ha).mono (K.le_trans hle hle')) name span
    | var | const =>
      exact valueCall_inStep (h.mono hle) (fun a ha => (hargs a ha).mono hle) span s s' hrel
  | _ => exact valueCall_inStep h hargs span

end Rules

end Opal
