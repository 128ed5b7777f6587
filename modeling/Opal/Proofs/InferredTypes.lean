import Opal.Proofs.ContextualExpressions
import Opal.Proofs.DisplayedTypes
import Opal.Proofs.InitializedUses

/-!
# Writing down the type that was found

An expression of which nothing is expected, and which has a type, has it also where this very type is expected. Only the
elements of an array are examined in another order: those that the deciding one overtakes take their types from the context.
-/

namespace Opal

open List Check

variable {s s1 s' : State}

variable {os : List Operand} {o l r : Operand} {t : Ty} {op : BinaryOp} {w : TypeExpr}

variable {α β : Type}

lemma Check.run_bind_eq_ok {m : Check α} {f : α → Check β} {s2 : State} {b : β} :
    (m >>= f).run s = (.ok b, s2) ↔ ∃ a s1, m.run s = (.ok a, s1) ∧ (f a).run s1 = (.ok b, s2) := by
  rw [run_bind]
  generalize m.run s = r
  obtain ⟨stop | a,s1⟩ := r
  · constructor
    · intro h
      cases congrArg Prod.fst h
    · rintro ⟨a,s',h,-⟩
      cases congrArg Prod.fst h
  · constructor
    · exact fun h => ⟨a,s1,rfl,h⟩
    · rintro ⟨a',s',h,hf⟩
      obtain rfl : a = a' := Except.ok.inj (congrArg Prod.fst h)
      obtain rfl : s1 = s' := congrArg Prod.snd h
      exact hf

lemma Check.run_unless {c : Prop} [Decidable c] {stop : Stop} {m : Check α} {a : α}
    (h : (if c then throw stop else m).run s = (.ok a, s1)) : ¬ c ∧ m.run s = (.ok a, s1) := by
  by_cases hc : c
  · rw [if_pos hc] at h
    cases congrArg Prod.fst h
  · rw [if_neg hc] at h
    exact ⟨hc,h⟩

lemma Check.run_inNewScope_eq_ok {m : Check α} {a : α} (h : (inNewScope m).run s = (.ok a, s1)) :
    ∃ s0, m.run (s.step .entered) = (.ok a, s0) ∧ s1 = s0.step .left := by
  rw [run_inNewScope] at h
  generalize m.run (s.step .entered) = r at h
  obtain ⟨x,s0⟩ := r
  cases h
  exact ⟨s0,rfl,rfl⟩

/-- From `s` the computation gives `a`, and comes to a state that resembles `s1`. -/
def Reaches (m : Check α) (s : State) (a : α) (s1 : State) : Prop :=
  ∃ s1', m.run s = (.ok a, s1') ∧ s1.Resembles s1'

namespace Reaches

variable {m m' : Check α} {f : α → Check β} {s s' s1 s2 : State} {a : α} {b : β}

lemma pure (h : s1.Resembles s) (a : α) : Reaches (Pure.pure a) s a s1 :=
  ⟨s,rfl,h⟩

lemma bind (hm : Reaches m s a s1) (hf : ∀ s1', s1.Resembles s1' → Reaches (f a) s1' b s2) : Reaches (m >>= f) s b s2 := by
  obtain ⟨s1',hrun,hs1⟩ := hm
  obtain ⟨s2',hrun',hs2⟩ := hf s1' hs1
  exact ⟨s2',run_bind_eq_ok.2 ⟨a,s1',hrun,hrun'⟩,hs2⟩

/-- A computation that gives a result gives it from every state that resembles the first one. -/
theorem of_agree {opens : String → Prop} (h : SelfLikeness.loose.Agree Eq m m' opens) (hs : s.Resembles s')
    (hrun : m.run s = (.ok a, s1)) : Reaches m' s' a s1 := by
  have hends := h.ends hs
  rw [hrun] at hends
  generalize hr' : m'.run s' = r' at hends
  cases hends with
  | result _ hrel ha =>
    obtain rfl := ha
    exact ⟨_,hr',hrel.2⟩

lemma of_inert (h : Inert m (.ok a)) (hs : s.Resembles s') : Reaches m s' a s := by
  obtain ⟨s1',hrun,hretyped⟩ := h s'
  exact ⟨s1',hrun,hs.retyped_right hretyped⟩

lemma retyped (h : Reaches m s a s1) (hs : s1.Retyped s2) : Reaches m s a s2 := by
  obtain ⟨s1',hrun,hs1⟩ := h
  exact ⟨s1',hrun,hs1.retyped_left hs⟩

lemma inNewScope {m : Check α} (hs : s.Resembles s') (hrun : (Opal.inNewScope m).run s = (.ok a, s1))
    (h : ∀ {t t' t1}, t.Resembles t' → m.run t = (.ok a, t1) → Reaches m' t' a t1) : Reaches (Opal.inNewScope m') s' a s1 := by
  obtain ⟨t1,hinner,rfl⟩ := run_inNewScope_eq_ok hrun
  obtain ⟨t1',hrun',ht1⟩ := h (hs.step .entered) hinner
  refine ⟨t1'.step .left,?_,ht1.step .left⟩
  rw [run_inNewScope, hrun']

end Reaches

/-- What is examined without an expected type has the same result where its type is expected. -/
def KeepsType (type : α → Ty) (value : Option Ty → Check α) : Prop :=
  ∀ ⦃s s' s1 : State⦄ ⦃a : α⦄, s.Resembles s' → (value none).run s = (.ok a, s1) → Reaches (value (some (type a))) s' a s1

lemma KeepsType.of_eq {type : α → Ty} {value : Option Ty → Check α} (heq : ∀ t, value (some t) = value none)
    (hagree : SelfLikeness.loose.Agree Eq (value none) (value none)) : KeepsType type value := by
  intro s s' s1 a hs hrun
  rw [heq]
  exact .of_agree hagree hs hrun

/-- An operand that keeps its type when the type is expected. -/
structure Operand.Persists (o : Operand) : Prop where
  like : o.Like SelfLikeness.loose.toLikeness o
  keeps : KeepsType id o.value
  contextual : o.expr.isContextual = true → ∀ expected, TakesType id expected (o.value expected)

lemma TakesType.eq_of_ok {type : α → Ty} {expected : Option Ty} {m : Check α} (h : TakesType type expected m)
    {a : α} (hrun : m.run s = (.ok a, s1)) : expected = some (type a) := by
  obtain ⟨r,hr,ht⟩ := h
  obtain ⟨s',hrun',-⟩ := hr s
  rw [hrun] at hrun'
  exact ht a (congrArg Prod.fst hrun').symm

lemma Operand.Persists.against (ho : o.Persists) (hs : s.Resembles s')
    (hrun : (o.value none).run s = (.ok t, s1)) : Reaches (o.against t) s' t s1 := by
  refine (ho.keeps hs hrun).bind fun s1' hs1 => ?_
  rw [if_pos t.fit_self_ok]
  exact .pure hs1 t

section Operators

/-- The operands of arithmetic have the same types where the type of the left one is expected of both. -/
theorem operandTypes_keepsType (hl : l.Persists) (hr : r.Persists)
    (hop : op.isArithmetic = true) {tl tr : Ty} (hs : s.Resembles s')
    (hrun : (operandTypes op l r none).run s = (.ok (tl, tr), s1)) :
    Reaches (operandTypes op l r (some tl)) s' (tl, tr) s1 := by
  have hfirst (expected : Option Ty) : op.firstExpected expected = expected := if_pos hop
  unfold operandTypes at hrun ⊢
  rw [hfirst] at hrun ⊢
  by_cases hcontextual : (l.expr.isContextual && !r.expr.isContextual) = true
  · rw [if_pos hcontextual] at hrun ⊢
    obtain ⟨tr',s2,hright,hrun⟩ := run_bind_eq_ok.1 hrun
    obtain ⟨tl',s3,hleft,hend⟩ := run_bind_eq_ok.1 hrun
    cases hend
    -- the left operand has the type of the right one
    obtain rfl : tr = tl := by
      have htakes := hl.contextual (Bool.and_eq_true_iff.1 hcontextual).1 (some tr)
      exact Option.some.inj (htakes.eq_of_ok hleft)
    exact (hr.keeps hs hright).bind fun s2' hs2 =>
      (Reaches.of_agree (hl.like.value _) hs2 hleft).bind fun s3' hs3 => .pure hs3 _
  · rw [if_neg hcontextual] at hrun ⊢
    obtain ⟨tl',s2,hleft,hrun⟩ := run_bind_eq_ok.1 hrun
    obtain ⟨tr',s3,hright,hend⟩ := run_bind_eq_ok.1 hrun
    cases hend
    exact (hl.keeps hs hleft).bind fun s2' hs2 =>
      (Reaches.of_agree (hr.like.value _) hs2 hright).bind fun s3' hs3 => .pure hs3 _

lemma binaryValue_keepsType (hl : l.Persists) (hr : r.Persists) (op : BinaryOp) : KeepsType id (binaryValue op l r) := by
  by_cases hop : op.isArithmetic = true
  · intro s s' s2 t hs hrun
    obtain ⟨⟨tl,tr⟩,s1,htypes,hend⟩ := run_bind_eq_ok.1 hrun
    dsimp only at hend
    rw [hop, if_pos rfl] at hend
    obtain ⟨haccepts,hend⟩ := run_unless hend
    obtain ⟨hfits,hend⟩ := run_unless hend
    cases hend
    refine Reaches.bind (operandTypes_keepsType hl hr hop hs htypes) fun s1' hs1 => ?_
    dsimp only [id]
    rw [hop, if_pos rfl, if_neg haccepts, if_neg hfits]
    exact .pure hs1 _
  · have hfirst (t : Ty) : op.firstExpected (some t) = op.firstExpected none := by
      rw [BinaryOp.firstExpected, BinaryOp.firstExpected, if_neg hop, if_neg hop]
    refine .of_eq (fun t => ?_) (binaryValue_agree hl.like hr.like op)
    rw [binaryValue, binaryValue, operandTypes, operandTypes, hfirst]

lemma negationValue_keepsType (ho : o.Persists) (span : Span) : KeepsType id (negationValue o span) := by
  intro s s' s2 t hs hrun
  unfold negationValue at hrun ⊢
  split at hrun
  · next text hlit =>
    obtain ⟨v,s1,hlit,-⟩ := run_bind_eq_ok.1 hrun
    cases (literalOfType_takesType ..).eq_of_ok hlit
  · next hlit =>
    obtain ⟨u,s1,hvalue,hend⟩ := run_bind_eq_ok.1 hrun
    cases u with
    | int i =>
      dsimp only at hend
      by_cases hsigned : i.signed = true
      · rw [if_pos hsigned] at hend
        cases hend
        refine (ho.keeps hs hvalue).bind fun s1' hs1 => ?_
        dsimp only
        rw [if_pos hsigned]
        exact .pure hs1 _
      · rw [if_neg hsigned] at hend
        cases congrArg Prod.fst hend
    | error =>
      cases hend
      exact (ho.keeps hs hvalue).bind fun s1' hs1 => .pure hs1 _
    | _ => cases congrArg Prod.fst hend

end Operators

/-! ## Array literals -/

section Arrays

variable {s s1 : State}

lemma checkElements_append (t : Ty) (os os' : List Operand) :
    checkElements t (os ++ os') = (do checkElements t os; checkElements t os') := by
  induction os with
  | nil => rw [nil_append, checkElements, pure_bind]
  | cons o os ih => rw [cons_append, checkElements, checkElements, ih, bind_assoc]

lemma inert_checkElements (t : Ty)
    (h : ∀ o ∈ os, ∀ expected, TakesType id expected (o.value expected)) : ∃ r, Inert (checkElements t os) r := by
  induction os with
  | nil => exact ⟨_,.pure ()⟩
  | cons o os ih =>
    obtain ⟨ho,hos⟩ := forall_mem_cons.1 h
    obtain ⟨r,hr⟩ := ih hos
    have hagainst : TakesType id (some t) (o.against t) :=
      (ho (some t)).bind fun u hu => .ite (.pure hu) (.throw _)
    obtain ⟨r',hr',-⟩ := hagainst
    cases r' with
    | ok u => exact ⟨r,hr'.bind hr⟩
    | error stop => exact ⟨_,hr'.bind_error⟩

lemma inert_of_run {m : Check α} (h : ∃ r, Inert m r) {a : α} (hrun : m.run s = (.ok a, s1)) :
    Inert m (.ok a) ∧ s.Retyped s1 := by
  obtain ⟨r,hr⟩ := h
  obtain ⟨s1',hrun',hretyped⟩ := hr s
  rw [hrun] at hrun'
  obtain rfl : Except.ok a = r := congrArg Prod.fst hrun'
  obtain rfl : s1 = s1' := congrArg Prod.snd hrun'
  exact ⟨hr,hretyped⟩

lemma filter_ne_of_nodup {os' : List Operand} (h : ((os ++ o :: os').map (·.expr.id)).Nodup) :
    (os ++ o :: os').filter (fun x => x.expr.id ≠ o.expr.id) = os ++ os' := by
  rw [map_append, map_cons, nodup_middle, nodup_cons, ← map_append] at h
  have hne : ∀ x ∈ os ++ os', x.expr.id ≠ o.expr.id := fun x hx heq =>
    h.1 (mem_map.2 ⟨x,hx,heq⟩)
  rw [filter_append, filter_cons_of_neg (by simp), ← filter_append, filter_eq_self]
  exact fun x hx => decide_eq_true (hne x hx)

/-- The elements before the one that decides take their types from the context. -/
theorem split_of_decidingElement (h : ∀ o ∈ os, o.Persists)
    (ho : decidingElement os = some o) (hrun : (o.value none).run s = (.ok t, s1)) :
    ∃ pre post, os = pre ++ o :: post ∧ ∀ x ∈ pre, x.expr.isContextual = true := by
  unfold decidingElement at ho
  cases hfind : os.find? fun x => !x.expr.isContextual with
  | none =>
    -- an element without a type of its own has none if nothing is expected
    rw [hfind, Option.none_or] at ho
    have hmem := mem_of_head? ho
    have hcontextual : o.expr.isContextual = true := by simpa using find?_eq_none.1 hfind o hmem
    cases ((h o hmem).contextual hcontextual none).eq_of_ok hrun
  | some x =>
    rw [hfind, Option.some_or] at ho
    obtain rfl := Option.some.inj ho
    obtain ⟨-,pre,post,hos,hpre⟩ := find?_eq_some_iff_append.1 hfind
    exact ⟨pre,post,hos,fun y hy => by simpa using hpre y hy⟩

lemma arrayValue_keepsType (h : ∀ o ∈ os, o.Persists) (hids : (os.map (·.expr.id)).Nodup)
    (span : Span) : KeepsType id (arrayValue os span) := by
  intro s s' s5 t hs hrun
  change (ownArrayValue os span).run s = _ at hrun
  unfold ownArrayValue at hrun
  cases hdeciding : decidingElement os with
  | none =>
    rw [hdeciding] at hrun
    cases congrArg Prod.fst hrun
  | some first =>
    rw [hdeciding] at hrun
    obtain ⟨element,s1,hfirst,hrun⟩ := run_bind_eq_ok.1 hrun
    obtain ⟨hvoid,hrun⟩ := run_unless hrun
    obtain ⟨_,s3,helements,hbuilt⟩ := run_bind_eq_ok.1 hrun
    cases hbuilt
    obtain ⟨pre,post,rfl,hpre⟩ := split_of_decidingElement h hdeciding hfirst
    have hmem := forall_mem_append.1 h
    obtain ⟨hpersists,hpost⟩ := forall_mem_cons.1 hmem.2
    rw [filter_ne_of_nodup hids, checkElements_append] at helements
    obtain ⟨_,s2,hearlier,hlater⟩ := run_bind_eq_ok.1 helements
    obtain ⟨hinert,hs12⟩ := inert_of_run (inert_checkElements element fun o ho => (hmem.1 o ho).contextual (hpre o ho)) hearlier
    have hothers : SelfLikeness.loose.Agree Eq (checkElements element post) (checkElements element post) :=
      checkElements_agree element (forall₂_same.2 fun o ho => (hpost o ho).like)
    refine Reaches.retyped (show Reaches _ _ _ s3 from ?_) ⟨_,_,_,rfl⟩
    dsimp only [arrayValue, id]
    rw [if_neg (not_not_intro rfl), checkElements_append, bind_assoc]
    -- those before the one that decides come first now
    refine (Reaches.of_inert hinert hs).bind fun s0 hs0 => ?_
    refine Reaches.bind (a := ()) ?_ fun s3' hs3 => .pure hs3 _
    exact ((hpersists.against hs0 hfirst).retyped hs12).bind fun s2' hs2 => .of_agree hothers hs2 hlater

end Arrays

/-! ## Lambdas -/

section Lambdas

variable {s s' s1 : State}

lemma lambdaParamType_keepsType {p : LambdaParam} (hs : s.Resembles s')
    (hrun : (ownParamType p).run s = (.ok t, s1)) : Reaches (lambdaParamType p t) s' t s1 := by
  unfold ownParamType at hrun
  unfold lambdaParamType
  cases htype : p.type with
  | none =>
    rw [htype] at hrun
    cases congrArg Prod.fst hrun
  | some written =>
    rw [htype] at hrun
    refine (Reaches.of_agree (denoteHere_agree written.like_self .value) hs hrun).bind fun s1' hs1 => ?_
    rw [if_neg (not_not_intro rfl)]
    exact .pure hs1 t

lemma lambdaParamTypes_keepsType (params : List LambdaParam) (span : Span) {ts : List Ty}
    (hs : s.Resembles s') (hrun : (lambdaParamTypes params none span).run s = (.ok ts, s1)) :
    Reaches (lambdaParamTypes params (some ts) span) s' ts s1 := by
  have hall : ts.length = params.length ∧ Reaches ((params.zip ts).mapM fun x => lambdaParamType x.1 x.2) s' ts s1 := by
    change (params.mapM ownParamType).run s = _ at hrun
    induction params generalizing s s' ts with
    | nil =>
      cases hrun
      exact ⟨rfl,.pure hs []⟩
    | cons p ps ih =>
      rw [mapM_cons] at hrun
      obtain ⟨t,s2,hparam,hrun⟩ := run_bind_eq_ok.1 hrun
      obtain ⟨ts,s3,hparams,hend⟩ := run_bind_eq_ok.1 hrun
      cases hend
      obtain ⟨s2',hparam',hs2⟩ := lambdaParamType_keepsType hs hparam
      obtain ⟨hlength,s1',hparams',hs1⟩ := ih hs2 hparams
      refine ⟨congrArg (· + 1) hlength,?_⟩
      rw [zip_cons_cons, mapM_cons]
      exact Reaches.bind ⟨s2',hparam',hs2⟩ fun s2'' hs2' =>
        (ih hs2' hparams).2.bind fun s1' hs1 => .pure hs1 _
  unfold lambdaParamTypes
  dsimp only
  rw [if_neg (not_not_intro hall.1)]
  exact hall.2

/-- The body of a lambda that keeps its type when the type is expected, and that has a type that is known before. -/
structure BodyPersists (body : Option Ty → Check Ty) : Prop where
  like : ∀ known, SelfLikeness.loose.Agree Eq (body known) (body known) fun _ => True
  keeps : KeepsType id body
  known : ∀ ⦃t s u s1⦄, (body (some t)).run s = (.ok u, s1) → u = t

lemma lambdaValue_keepsType (params : List LambdaParam) (ret : Option TypeExpr) {body : Option Ty → Check Ty}
    (hbody : BodyPersists body) (span : Span) : KeepsType id (lambdaValue params ret body span) := by
  intro s s' s5 t hs hrun
  obtain ⟨types,s1,htypes,hrun⟩ := run_bind_eq_ok.1 hrun
  obtain ⟨known,s2,hreturn,hrun⟩ := run_bind_eq_ok.1 hrun
  obtain ⟨result,s4,hscope,hbuilt⟩ := run_bind_eq_ok.1 hrun
  cases hbuilt
  refine Reaches.retyped (show Reaches _ _ _ s4 from ?_) ⟨_,_,_,rfl⟩
  refine (lambdaParamTypes_keepsType params span hs htypes).bind fun s1' hs1 => ?_
  -- the body has the same result in its scope if it has it by itself
  have hend {known' : Option Ty} (h : ∀ ⦃t t' t1⦄, State.Resembles t t' →
      (body known).run t = (.ok result, t1) → Reaches (body known') t' result t1) {s2' : State}
      (hs2 : s2.Resembles s2') :
      Reaches (do
        let result ← inNewScope do
          declareLambdaParams params types
          body known'
        built (.function types result)) s2' (.function types result) s4 := by
    refine Reaches.bind (.inNewScope hs2 hscope fun hs2 hrun => ?_) fun s4' hs4 => .of_inert (.built _) hs4
    obtain ⟨_,s3,hparams,hrun⟩ := run_bind_eq_ok.1 hrun
    exact (Reaches.of_agree (declareLambdaParams_agree (lambdaParams_like_self params) types) hs2 hparams).bind
      fun s3' hs3 => h hs3 hrun
  cases ret with
  | none =>
    -- the result type is that of the body, and now it is known before
    cases hreturn
    exact (Reaches.pure hs1 (some result)).bind fun s2' hs2 => hend (fun _ _ _ ht hrun => hbody.keeps ht hrun) hs2
  | some written =>
    obtain ⟨wanted,s3,hwritten,hrun⟩ := run_bind_eq_ok.1 hreturn
    cases hrun
    have hresult : result = wanted := by
      obtain ⟨s0,hrun,-⟩ := run_inNewScope_eq_ok hscope
      obtain ⟨_,_,-,hrun⟩ := run_bind_eq_ok.1 hrun
      exact hbody.known hrun
    subst hresult
    have hagain : Reaches (lambdaReturn (some written) (some result)) s1' (some result) s2 := by
      refine (Reaches.of_agree (denoteHere_agree written.like_self .result) hs1 hwritten).bind fun s2' hs2 => ?_
      dsimp only
      rw [if_neg (not_not_intro rfl)]
      exact .pure hs2 _
    exact hagain.bind fun s2' hs2 => hend (fun _ _ _ ht hrun => .of_agree (hbody.like _) ht hrun) hs2

lemma exprBody_persists (ho : o.Persists) : BodyPersists (exprBody o) where
  like known := (exprBody_agree ho.like known).weaken fun _ _ => trivial
  keeps := by
    intro s s' s1 t hs hrun
    by_cases hvoid : t = .void
    · subst hvoid
      exact (Reaches.of_agree (ho.like.value none) hs hrun).bind fun s1' hs1 => .pure hs1 _
    · have hagainst : Reaches (do let _ ← o.against t; return t) s' t s1 :=
        (ho.against hs hrun).bind fun s1' hs1 => .pure hs1 _
      cases t with
      | void => exact absurd rfl hvoid
      | _ => exact hagainst
  known := by
    intro t s u s1 hrun
    cases t with
    | _ =>
      obtain ⟨_,s2,-,hend⟩ := run_bind_eq_ok.1 hrun
      cases hend
      rfl

lemma blockBody_persists {x : Run Unit} (hx : SelfLikeness.loose.RunAgree Eq x x fun _ => True) :
    BodyPersists (blockBody x) where
  like := blockBody_agree hx
  keeps := by
    intro s s' s1 t hs hrun
    obtain ⟨_,s2,-,hend⟩ := run_bind_eq_ok.1 hrun
    cases hend
    exact .of_agree (blockBody_agree hx none) hs hrun
  known := by
    intro t s u s1 hrun
    obtain ⟨_,s2,-,hend⟩ := run_bind_eq_ok.1 hrun
    cases hend
    rfl

end Lambdas

/-! ## Whole expressions -/

lemma ExprForm.keepsType_of_eq (form : ExprForm) (n : NodeId) (span : Span)
    (h : ∀ t, form.value n span (some t) = form.value n span none) : KeepsType id (form.value n span) :=
  .of_eq h (form.value_agree_of_like form.like_self n rfl none)

mutual

lemma Expr.persists : ∀ e : Expr, e.ids.Nodup → e.operand.Persists
  | ⟨n,span,form⟩, h => by
    refine ⟨(Expr.like_self _).operand,?_,takesType_of_isContextual ⟨n,span,form⟩⟩
    intro s s' s3 t hs hrun
    obtain ⟨_,s1,hbegun,hrest⟩ := run_bind_eq_ok.1 hrun
    obtain ⟨_,s2,hvalue,hend⟩ := run_bind_eq_ok.1 hrest
    cases hbegun
    cases hend
    have hs1 : (s.step (.begun n none)).Resembles s' := hs.retyped_left ⟨_,_,_,rfl⟩
    refine (Reaches.of_inert (.begun n (some t)) hs1).bind fun s1' hs1 => ?_
    refine (form.keepsType_value (nodup_left h) n span hs1 hvalue).bind fun s2' hs2 => ?_
    refine Reaches.retyped (show Reaches _ _ _ s2 from ?_) ⟨_,_,_,rfl⟩
    exact (Reaches.of_inert (.recordType n t) hs2).bind fun s3' hs3 => .pure hs3 t

lemma ExprForm.keepsType_value (form : ExprForm) (h : (form.nodes.map Node.id).Nodup) (n : NodeId) (span : Span) :
    KeepsType id (form.value n span) := by
  cases form with
  | int text =>
    intro s s' s1 t hs hrun
    obtain ⟨v,s2,hvalue,-⟩ := run_bind_eq_ok.1 hrun
    cases (literalOfType_takesType ..).eq_of_ok hvalue
  | binary op l r => exact binaryValue_keepsType (l.persists (nodup_left h)) (r.persists (nodup_right h)) op
  | unary op e =>
    cases op with
    | neg => exact negationValue_keepsType (e.persists h) span
    | not => exact ExprForm.keepsType_of_eq _ n span fun _ => rfl
  | array es =>
    refine arrayValue_keepsType (operands_persist es h) ?_ span
    rw [map_id_operands]
    exact nodup_map_of_exprIds Expr.id_mem_ids h
  | lambda params ret body => exact lambdaValue_keepsType params ret (body.persists (nodup_right h)) span
  | paren e => exact (e.persists h).keeps
  | _ => exact ExprForm.keepsType_of_eq _ n span fun _ => rfl

lemma operands_persist : ∀ es : List Expr, ((exprNodes es).map Node.id).Nodup → ∀ o ∈ operands es, o.Persists
  | [], _ => fun _ ho => absurd ho not_mem_nil
  | e :: es, h => forall_mem_cons.2 ⟨e.persists (nodup_left h),operands_persist es (nodup_right h)⟩

lemma LambdaBody.persists : ∀ body : LambdaBody, (body.nodes.map Node.id).Nodup → BodyPersists body.check
  | .expr e, h => exprBody_persists (e.persists h)
  | .block b, _ => blockBody_persists (b.like_self.check_agree.weaken fun _ _ => trivial)

end

/-! ## Constant expressions -/

section Constants

/-- A constant expression that keeps its value when the type of the value is expected. -/
structure ConstantPersists (value : Option Ty → Check Value) : Prop where
  like : ∀ expected, SelfLikeness.loose.Agree (fun v v' => v = v' ∧ v.Meets expected) (value expected) (value expected)
  keeps : KeepsType Value.type value

variable {value leftValue rightValue : Option Ty → Check Value}

lemma ConstantPersists.agree (h : ConstantPersists value) (expected : Option Ty) :
    SelfLikeness.loose.Agree Eq (value expected) (value expected) :=
  (h.like expected).mono fun _ _ h => h.1

lemma ConstantPersists.type_eq (h : ConstantPersists value) (ht : t ≠ .error) {v : Value}
    (hrun : (value (some t)).run s = (.ok v, s1)) : v.type = t := by
  have hends := (h.like (some t)).ends (State.Resembles.refl s)
  rw [hrun] at hends
  cases hends with
  | result _ _ hv => exact hv.2 t rfl ht

lemma Value.type_ne_error (v : Value) : v.type ≠ .error := by
  cases v <;> exact Ty.noConfusion

lemma ExprForm.keepsType_constant_of_eq (scope : ScopeId) (form : ExprForm) (n : NodeId) (span : Span)
    (h : ∀ t, form.constant constantValue scope n span (some t) = form.constant constantValue scope n span none) :
    KeepsType Value.type (form.constant constantValue scope n span) :=
  .of_eq h (form.constant_agree_of_like scope constantValue_agree form.like_self n rfl none)

lemma constantNegation_keepsType (h : ConstantPersists value) (e : Expr) (span : Span) :
    KeepsType Value.type (constantNegation e value span) := by
  intro s s' s2 v hs hrun
  unfold constantNegation at hrun ⊢
  cases hlit : e.literal? with
  | some text =>
    rw [hlit] at hrun
    obtain ⟨v,s1,hlit,-⟩ := run_bind_eq_ok.1 hrun
    cases (literalOfType_takesType ..).eq_of_ok hlit
  | none =>
    rw [hlit] at hrun
    obtain ⟨u,s1,hvalue,hend⟩ := run_bind_eq_ok.1 hrun
    have hnegate := negateValue_agree (L := SelfLikeness.loose.toLikeness) (rfl : e.span = e.span) (rfl : span = span) u
    have htype : v.type = u.type := by
      cases u with
      | int n i =>
        by_cases hsigned : i.signed = true
        · by_cases hcontains : i.contains (-n) = true
          · rw [negateValue, if_pos hsigned, if_pos hcontains] at hend
            cases hend
            rfl
          · rw [negateValue, if_pos hsigned, if_neg hcontains] at hend
            cases congrArg Prod.fst hend
        · rw [negateValue, if_neg hsigned] at hend
          cases congrArg Prod.fst hend
      | bool | char => cases congrArg Prod.fst hend
    rw [htype]
    exact (h.keeps hs hvalue).bind fun s1' hs1 => .of_agree hnegate hs1 hend

section

variable (hl : ConstantPersists leftValue) (hr : ConstantPersists rightValue)
include hl hr

/-- The operands of arithmetic have one type, and the same values where it is expected of both. -/
theorem constantOperands_keepsType (hop : op.isArithmetic = true) (left right : Expr) {l r : Value} (hs : s.Resembles s')
    (hrun : (constantOperands op left right leftValue rightValue none).run s = (.ok (l, r), s1)) : r.type = l.type ∧
      Reaches (constantOperands op left right leftValue rightValue (some l.type)) s' (l, r) s1 := by
  have hfirst (expected : Option Ty) : op.firstExpected expected = expected := if_pos hop
  unfold constantOperands at hrun ⊢
  rw [hfirst] at hrun ⊢
  by_cases hcontextual : (left.isContextual && !right.isContextual) = true
  · rw [if_pos hcontextual] at hrun ⊢
    obtain ⟨r',s2,hright,hrun⟩ := run_bind_eq_ok.1 hrun
    obtain ⟨l',s3,hleft,hend⟩ := run_bind_eq_ok.1 hrun
    cases hend
    have htype := hl.type_eq r.type_ne_error hleft
    rw [htype]
    exact ⟨rfl,(hr.keeps hs hright).bind fun s2' hs2 =>
      (Reaches.of_agree (hl.agree _) hs2 hleft).bind fun s3' hs3 => .pure hs3 _⟩
  · rw [if_neg hcontextual] at hrun ⊢
    obtain ⟨l',s2,hleft,hrun⟩ := run_bind_eq_ok.1 hrun
    obtain ⟨r',s3,hright,hend⟩ := run_bind_eq_ok.1 hrun
    cases hend
    exact ⟨hr.type_eq l.type_ne_error hright,(hl.keeps hs hleft).bind fun s2' hs2 =>
      (Reaches.of_agree (hr.agree _) hs2 hright).bind fun s3' hs3 => .pure hs3 _⟩

lemma constantBinary_keepsType (op : BinaryOp)
    (left right : Expr) (span : Span) : KeepsType Value.type (constantBinary op left right leftValue rightValue span) := by
  by_cases hop : op.isArithmetic = true
  · intro s s' s2 v hs hrun
    obtain ⟨⟨l,r⟩,s1,hoperands,hend⟩ := run_bind_eq_ok.1 hrun
    dsimp only at hend
    by_cases haccepts : op.accepts l.type = true
    · rw [if_pos haccepts] at hend
      obtain ⟨htype,-⟩ := constantOperands_keepsType hl hr hop left right hs hoperands
      cases hbinary : l.binary op r with
      | error cause =>
        rw [hbinary] at hend
        cases congrArg Prod.fst hend
      | ok w =>
        rw [hbinary] at hend
        cases hend
        have hvtype : v.type = l.type := by
          rw [(Value.binary_exact haccepts htype hbinary).2.2, if_pos hop]
        rw [hvtype]
        refine Reaches.bind (constantOperands_keepsType hl hr hop left right hs hoperands).2 fun s1' hs1 => ?_
        dsimp only
        rw [if_pos haccepts, hbinary]
        exact .pure hs1 v
    · rw [if_neg haccepts] at hend
      cases congrArg Prod.fst hend
  · have hfirst (t : Ty) : op.firstExpected (some t) = op.firstExpected none := by
      rw [BinaryOp.firstExpected, BinaryOp.firstExpected, if_neg hop, if_neg hop]
    refine .of_eq (fun t => ?_) (constantBinary_agree left.like_self right.like_self hl.agree hr.agree op (rfl : span = span))
    rw [constantBinary, constantBinary, constantOperands, constantOperands, hfirst]

end

mutual

lemma Expr.constantPersists (scope : ScopeId) : ∀ e : Expr, ConstantPersists (e.constant constantValue scope)
  | ⟨n,span,form⟩ => by
    refine ⟨(Expr.like_self _).constant_agree scope constantValue_agree,?_⟩
    intro s s' s3 v hs hrun
    obtain ⟨_,s1,hbegun,hrest⟩ := run_bind_eq_ok.1 hrun
    obtain ⟨_,s2,hvalue,hend⟩ := run_bind_eq_ok.1 hrest
    cases hbegun
    cases hend
    have hs1 : (s.step (.begun n none)).Resembles s' := hs.retyped_left ⟨_,_,_,rfl⟩
    refine (Reaches.of_inert (.begun n (some v.type)) hs1).bind fun s1' hs1 => ?_
    refine (form.keepsType_constant scope n span hs1 hvalue).bind fun s2' hs2 => ?_
    refine Reaches.retyped (show Reaches _ _ _ s2 from ?_) ⟨_,_,_,rfl⟩
    rw [requireType_eq_pure fun t ht _ => Option.some.inj ht, pure_bind]
    exact (Reaches.of_inert (.recordType n v.type) hs2).bind fun s3' hs3 => .pure hs3 v

lemma ExprForm.keepsType_constant (scope : ScopeId) (form : ExprForm) (n : NodeId) (span : Span) :
    KeepsType Value.type (form.constant constantValue scope n span) := by
  cases form with
  | int text =>
    intro s s' s1 t hs hrun
    rw [ExprForm.constant] at hrun
    cases (literalOfType_takesType ..).eq_of_ok hrun
  | unary op e =>
    cases op with
    | neg => exact constantNegation_keepsType (e.constantPersists scope) e span
    | not => exact ExprForm.keepsType_constant_of_eq scope _ n span fun _ => rfl
  | binary op l r => exact constantBinary_keepsType (l.constantPersists scope) (r.constantPersists scope) op l r span
  | paren e => exact (e.constantPersists scope).keeps
  | _ => exact ExprForm.keepsType_constant_of_eq scope _ n span fun _ => rfl

end

end Constants

/-! ## Variables -/

mutual

/-- Whether the sizes of the arrays in a type are in the range of 32 bits, as those that are written are. -/
def Ty.isSized : Ty → Bool
  | .array element size => decide (size < 2 ^ 32) && element.isSized
  | .reference _ target => target.isSized
  | .function params ret => Ty.areSized params && ret.isSized
  | .error | .void | .bool | .char | .string | .int _ => true

/-- Whether the sizes of the arrays in all types of a list are. -/
def Ty.areSized : List Ty → Bool
  | [] => true
  | t :: ts => t.isSized && Ty.areSized ts

end

lemma Ty.isSized_of_mem : ∀ {ts : List Ty}, Ty.areSized ts = true → ∀ t ∈ ts, t.isSized = true
  | [], _, _, h => absurd h not_mem_nil
  | _ :: _, hts, _, h => by
    rw [Ty.areSized, Bool.and_eq_true] at hts
    cases h with
    | head => exact hts.1
    | tail _ h => exact Ty.isSized_of_mem hts.2 _ h

lemma buildable_isSized : Buildable (fun _ => True) (fun t => t.isSized = true) where
  part := by
    intro t u ht hu
    cases t with
    | array element size =>
      rw [Ty.isSized, Bool.and_eq_true] at ht
      rw [mem_singleton.1 hu]
      exact ht.2
    | reference mutable target =>
      rw [mem_singleton.1 hu]
      exact ht
    | function params ret =>
      rw [Ty.isSized, Bool.and_eq_true] at ht
      cases hu with
      | head => exact ht.2
      | tail _ hu => exact Ty.isSized_of_mem ht.1 u hu
    | _ => cases hu
  size_lt := by
    intro element size h
    rw [Ty.isSized, Bool.and_eq_true] at h
    exact of_decide_eq_true h.1
  intern _ _ := trivial

lemma inert_denoteHere (hvalue : t.isValue = true) (hsized : t.isSized = true)
    (hw : w.bare = t.written) : Inert (denoteHere w .value) (.ok t) := by
  intro s
  obtain ⟨s',hrun,-,hretyped⟩ :=
    t.quietly_denote buildable_isSized constantValue s.scopes.current hvalue hsized w hw .value s trivial
  exact ⟨s',hrun,hretyped⟩

lemma varType_keepsType (ho : o.Persists) (name : String)
    (hrun : (o.value none).run s = (.ok t, s1)) (hw : Inert (denoteHere w .value) (.ok t)) :
    Reaches (varType name (some w) o) s t s1 :=
  (Reaches.of_inert hw (State.Resembles.refl s)).bind fun _ hs =>
    (ho.against hs hrun).bind fun _ hs1 => .pure hs1 t

/-- A variable whose declaration is accepted without a type, and whose initializer has the type `t`, has this type, and has
it also if `t` is written down. -/
theorem varDecl_keepsType (ho : o.Persists) (name : String) (b : BindingId)
    (hrun : (varDecl name none o b).run s = (.ok (), s1)) :
    ∃ t s0, (o.value none).run (s.marked b (·.setVarStage .initializing)) = (.ok t, s0) ∧
      s1 = s0.marked b (fun r => (r.setVarType t).setVarStage .initialized) ∧
      ∀ w, w.bare = t.written → t.isValue = true → t.isSized = true → Reaches (varDecl name (some w) o b) s () s1 := by
  rw [run_varDecl] at hrun
  generalize hr : (varType name none o).run (s.marked b (·.setVarStage .initializing)) = r at hrun
  obtain ⟨stop | t,s0⟩ := r
  · cases congrArg Prod.fst hrun
  · obtain ⟨u,s0',hvalue,hend⟩ := run_bind_eq_ok.1 hr
    obtain ⟨-,hend⟩ := run_unless hend
    cases hend
    cases hrun
    refine ⟨t,s0,hvalue,rfl,fun w hw ht hsized => ?_⟩
    obtain ⟨s2,htype,hs2⟩ := varType_keepsType ho name hvalue (inert_denoteHere ht hsized hw)
    refine ⟨_,?_,hs2.marked b _⟩
    rw [run_varDecl, htype]

/-! ## All of them -/

/-- The findings differ at most in the types that are recorded and numbered. -/
def Findings.SameButTypes (a a' : Findings) : Prop :=
  a' = { a with types := a'.types, typeOf := a'.typeOf }

lemma State.Resembles.sameButTypes (h : s.Resembles s') : s.toFindings.SameButTypes s'.toFindings := by
  have hscopes : s'.scopes = s.scopes := Likeness.States.scopes_eq h fun _ _ => Eq.symm
  calc s'.toFindings = ⟨s'.types,s'.scopes,s'.typeOf,s'.refersTo,s'.valueOf,s'.introduces,s'.errors⟩ := rfl
    _ = ⟨s'.types,s.scopes,s'.typeOf,s.refersTo,s.valueOf,s.introduces,s.errors⟩ := by
      rw [hscopes, h.refersTo, h.valueOf, h.introduces, h.errors_eq]

/-- Whatever the state is: an expression that has a type where nothing is expected of it has it also where this very type
is expected. So a variable whose declaration is accepted without a type has the type of its initializer, and is accepted
just as well if this type is written down. A constant expression has the same value if the type of the value is expected.
Each time, everything else that is learned on the way is the same, and so are the errors in statements inside. -/
theorem inferred_type_stays (s : State) :
    (∀ (e : Expr) (t : Ty) (s1 : State), e.ids.Nodup → (e.operand.value none).run s = (.ok t, s1) →
      ∃ s2, (e.operand.value (some t)).run s = (.ok t, s2) ∧ s1.toFindings.SameButTypes s2.toFindings) ∧
    (∀ (d : VarDecl) (b : BindingId) (s1 : State), d.init.ids.Nodup → d.type = none →
      s.introduces[d.id]? = some b → d.check.run s = (.ok (), s1) →
      ∃ t s0, (d.init.operand.value none).run (s.marked b (·.setVarStage .initializing)) = (.ok t, s0) ∧
        s1 = s0.marked b (fun r => (r.setVarType t).setVarStage .initialized) ∧
        ∀ w : TypeExpr, w.bare = t.written → t.isValue = true → t.isSized = true →
          ∃ s2, ({ d with type := some w } : VarDecl).check.run s = (.ok (), s2) ∧ s1.toFindings.SameButTypes s2.toFindings) ∧
    ∀ (e : Expr) (scope : ScopeId) (v : Value) (s1 : State), (e.constant constantValue scope none).run s = (.ok v, s1) →
      ∃ s2, (e.constant constantValue scope (some v.type)).run s = (.ok v, s2) ∧ s1.toFindings.SameButTypes s2.toFindings := by
  refine ⟨fun e t s1 hids hrun => ?_,fun d b s1 hids htype hb hrun => ?_,fun e scope v s1 hrun => ?_⟩
  · obtain ⟨s2,hrun',hs2⟩ := (e.persists hids).keeps (State.Resembles.refl s) hrun
    exact ⟨s2,hrun',State.Resembles.sameButTypes hs2⟩
  · obtain ⟨id,name,nameSpan,mutable,type,init,span⟩ := d
    obtain rfl : type = none := htype
    have hcheck (type : Option TypeExpr) :
        (VarDecl.mk id name nameSpan mutable type init span).check.run s = (varDecl name type init.operand b).run s := by
      rw [VarDecl.check, run_ifAccepted, show s.introduces[id]? = some b from hb]
    rw [hcheck] at hrun
    obtain ⟨t,s0,hvalue,hs1,hwritten⟩ := varDecl_keepsType (init.persists hids) name b hrun
    refine ⟨t,s0,hvalue,hs1,fun w hw ht hsized => ?_⟩
    obtain ⟨s2,hrun',hs2⟩ := hwritten w hw ht hsized
    exact ⟨s2,(hcheck (some w)).trans hrun',State.Resembles.sameButTypes hs2⟩
  · obtain ⟨s2,hrun',hs2⟩ := (e.constantPersists scope).keeps (State.Resembles.refl s) hrun
    exact ⟨s2,hrun',State.Resembles.sameButTypes hs2⟩

/-- An array whose second element, the call of a lambda, decides the type of the first one. -/
theorem inferred_type_stays_array : ∃ (m : Module) (d : VarDecl) (s s1 s2 : State),
    Module.parse "let x = [1, ((a: i8) => a)(2)];" = .ok m ∧ Node.decl (.var d) ∈ m.nodes ∧ d.type = none ∧
      s = (declareAll m.decls State.initial).2 ∧ d.check.run s = (.ok (), s1) ∧
      ({ d with type := some (Ty.array (.int .i8) 2).written } : VarDecl).check.run s = (.ok (), s2) ∧
      s1.toFindings.SameButTypes s2.toFindings := by
  obtain ⟨m,hm,htest⟩ := Module.exists_of_test "let x = [1, ((a: i8) => a)(2)];" (fun m => m.nodes.any <| Node.isVar fun d =>
      let s := (declareAll m.decls State.initial).2
      let value := d.init.operand.value none
      d.type.isNone && decide d.init.ids.Nodup && s.introduces[d.id]? == some 0 && (d.check.run s).1 == .ok () &&
        (value.run (s.marked 0 (·.setVarStage .initializing))).1 == .ok (.array (.int .i8) 2))
    (by decide +kernel)
  obtain ⟨d,hmem,htest⟩ := exists_var_of_any htest
  simp only [Bool.and_eq_true, decide_eq_true_eq, beq_iff_eq, Option.isNone_iff_eq_none] at htest
  obtain ⟨⟨⟨⟨htype,hids⟩,hb⟩,hrun⟩,hvalue⟩ := htest
  obtain ⟨t,s0,ht,-,hwritten⟩ := (inferred_type_stays _).2.1 d 0 _ hids htype hb (Prod.ext hrun rfl)
  obtain rfl : t = .array (.int .i8) 2 := Except.ok.inj ((congrArg Prod.fst ht).symm.trans hvalue)
  obtain ⟨s2,hrun',hsame⟩ := hwritten _ (Ty.bare_written _) (by decide) (by decide)
  exact ⟨m,d,_,_,s2,hm,hmem,htype,rfl,Prod.ext hrun rfl,hrun',hsame⟩

end Opal
