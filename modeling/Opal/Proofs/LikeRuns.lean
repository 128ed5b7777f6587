import Opal.Check.Module
import Opal.Proofs.LikeConstants
import Opal.Proofs.Trees

/-!
# Examining trees that are alike

From states that are alike, trees that are alike are examined in the same steps, have the same type, and the same is wrong with
them.
-/

namespace Opal

open List

variable {b b' : ArgumentBinding} {d d' : Decl} {args args' : List ArgumentOperand} {ps ps' : List LambdaParam}
    {os os' : List Operand} {index index' o o' base base' callee callee' : Operand} {ret ret' t t' : Option TypeExpr}
    {x x' : Run Unit} {a a' : ArgumentOperand} {w : State} {p p' : LambdaParam} {ds ds' : List Decl} {scope : ScopeId}
    {span span' : Span}

variable {L : Likeness} {opens opens' : String → Prop}

/-- Operands that are examined in the same steps, with the same type or the same place for a result. -/
structure Operand.Like (L : Likeness) (o o' : Operand) : Prop where
  expr : o.expr.Like L o'.expr
  value : ∀ expected, L.Agree Eq (o.value expected) (o'.value expected)
  place : ∀ use, L.Agree Eq (o.place use) (o'.place use)

/-- Arguments with one name, whose operands are alike. -/
structure ArgumentOperand.Like (L : Likeness) (a a' : ArgumentOperand) : Prop where
  name : a'.name = a.name
  span : L.span a.span a'.span
  value : a.value.Like L a'.value

/-- Operands that are alike are accepted against the same types. -/
theorem Operand.Like.against (h : o.Like L o') (expected : Ty) : L.Agree Eq (o.against expected) (o'.against expected) :=
  (h.value _).andThen fun _ => .ite (.pure rfl) (.mismatch h.expr.span)

/-! ## Names -/

section

variable (hspan : L.span span span')
include hspan

/-- A binding is read with the same result wherever it is named. -/
theorem readBinding_agree (b : BindingId) (name : String) : L.Agree Eq (readBinding b name span) (readBinding b name span') := by
  refine (referentOf_agree b).andThen fun r => ?_
  cases r with
  | var t _ stage =>
    cases stage with
    | initialized =>
      cases t with
      | some t => exact .pure rfl
      | none => exact .blocked
    | failed => cases t <;> exact .blocked
    | declared | initializing => cases t <;> exact .fail hspan
  | const => exact (constantValue_agree b).andThen fun v => .pure rfl
  | func => exact .ite .blocked (.pure rfl)

lemma bindingNamed_agree (id : NodeId) (name : String) : L.Agree Eq (bindingNamed id name span) (bindingNamed id name span') :=
  .andThen (.lift .currentScope) fun scope => findFrom_agree hspan scope id name

/-- So is the binding that a name refers to. -/
theorem readName_agree (id : NodeId) (name : String) : L.Agree Eq (readName id name span) (readName id name span') :=
  (bindingNamed_agree hspan id name).andThen fun b => readBinding_agree hspan b name

/-- A name is the same place, or none at all, wherever it stands. -/
theorem namedPlace_agree (id : NodeId) (name : String) (use : PlacePurpose) :
    L.Agree Eq (namedPlace id name span use) (namedPlace id name span' use) := by
  refine (bindingNamed_agree hspan id name).andThen fun b => (referentOf_agree b).andThen fun r => ?_
  cases r with
  | var _ mutable _ => exact (readBinding_agree hspan b name).andThen fun t => .pure rfl
  | const | func => cases use <;> exact .fail hspan

end

/-! ## Operators -/

section Operators

variable {expected : Option Ty}

/-- Both operands of a binary operator are examined in the same order, which depends on their forms only. -/
theorem binaryValue_agree {l l' r r' : Operand} (hl : l.Like L l') (hr : r.Like L r') (op : BinaryOp) :
    L.Agree Eq (binaryValue op l r expected) (binaryValue op l' r' expected) := by
  have htypes : L.Agree Eq (operandTypes op l r expected) (operandTypes op l' r' expected) := by
    unfold operandTypes
    rw [hl.expr.isContextual_eq, hr.expr.isContextual_eq]
    refine .ite ?_ ?_
    · exact (hr.value _).andThen fun tr => (hl.value _).andThen fun tl => .pure rfl
    · exact (hl.value _).andThen fun tl => (hr.value _).andThen fun tr => .pure rfl
  exact htypes.andThen fun ⟨tl,tr⟩ =>
    .ite (.mismatch hl.expr.span) (.ite (.mismatch hr.expr.span) (.pure rfl))

/-- A negated literal has one value, and its type is noted at the operand of each tree. -/
theorem negationValue_literal_agree {text : String} (hlit : o.expr.literal? = some text)
    (hlit' : o'.expr.literal? = some text) (hid : L.Both o.expr.id o'.expr.id) (hspan : L.span span span') :
    L.Agree Eq (negationValue o span expected) (negationValue o' span' expected) := by
  unfold negationValue
  rw [hlit, hlit']
  exact (literalOfType_agree hspan text true expected).andThen fun v =>
    .andThen (.lift (.perform (.typed hid v.type))) fun _ => .pure rfl

section

variable (h : o.Like L o')
include h

/-- Any other operand of a negation is examined by itself. -/
theorem negationValue_agree (hlit : o.expr.literal? = none) :
    L.Agree Eq (negationValue o span expected) (negationValue o' span' expected) := by
  unfold negationValue
  rw [h.expr.literal?_eq, hlit]
  refine (h.value expected).andThen fun t => ?_
  cases t with
  | int i => exact .ite (.pure rfl) (.mismatch h.expr.span)
  | error => exact .pure rfl
  | _ => exact .mismatch h.expr.span

lemma complementValue_agree : L.Agree Eq (complementValue o) (complementValue o') :=
  (h.against _).andThen fun _ => .pure rfl

lemma addressValue_agree : L.Agree Eq (addressValue o) (addressValue o') :=
  (h.place _).andThen fun _ => .lift (.built _)

/-- What operands that are alike point to is the same place. -/
theorem derefPlace_agree : L.Agree Eq (derefPlace o) (derefPlace o') := by
  refine (h.value none).andThen fun t => ?_
  cases t with
  | reference => exact .pure rfl
  | _ => exact .mismatch h.expr.span

lemma derefValue_agree : L.Agree Eq (derefValue o) (derefValue o') :=
  (derefPlace_agree h).andThen fun _ => .pure rfl

end

/-- What is indexed has to be an array in both, and the index an integer. -/
theorem elementType_agree (hspan : L.span span span') (h : index.Like L index') (base : Ty) :
    L.Agree Eq (elementType base span index) (elementType base span' index') := by
  unfold elementType
  cases base with
  | array element _ =>
    rw [h.expr.isContextual_eq]
    exact .ite ((h.value _).andThen fun _ => .pure rfl) ((h.value _).andThen fun t => .ite (.pure rfl) (.mismatch h.expr.span))
  | _ => exact .mismatch hspan

/-- An element that is read has the same type. -/
theorem indexValue_agree (hbase : base.Like L base') (hindex : index.Like L index') :
    L.Agree Eq (indexValue base index) (indexValue base' index') :=
  (hbase.value none).andThen fun t => elementType_agree hbase.expr.span hindex t

/-- An element that is written to is the same place. -/
theorem indexPlace_agree (hbase : base.Like L base') (hindex : index.Like L index') (use : PlacePurpose) :
    L.Agree Eq (indexPlace base index use) (indexPlace base' index' use) :=
  (hbase.place use).andThen fun place => (elementType_agree hbase.expr.span hindex place.type).andThen fun _ => .pure rfl

end Operators

/-! ## Calls -/

/-- Arguments that are alike were given to the same parameters, and as many were left over. -/
structure ArgumentBinding.Like (L : Likeness) (b b' : ArgumentBinding) : Prop where
  bound : Forall₂ (Option.Rel (ArgumentOperand.Like L)) b.bound b'.bound
  free : b'.free = b.free
  surplus : b'.surplus = b.surplus

section Slots

variable {α : Type} {P : α → α → Prop} {l l' : List (Option α)} (h : Forall₂ (Option.Rel P) l l')
include h

/-- Giving arguments that are alike to one parameter keeps the slots alike. -/
theorem set_some_like {a a' : α} (ha : P a a') (i : Nat) : Forall₂ (Option.Rel P) (l.set i (some a)) (l'.set i (some a')) := by
  induction h generalizing i with
  | nil => exact .nil
  | cons h hs ih =>
    cases i with
    | zero => exact .cons (.some ha) hs
    | succ i => exact .cons h (ih i)

/-- A parameter has an argument in both or in none. -/
theorem isSome_join_like (i : Nat) : l'[i]?.join.isSome = l[i]?.join.isSome := by
  induction h generalizing i with
  | nil => rfl
  | cons h hs ih =>
    cases i with
    | zero => cases h <;> rfl
    | succ i => exact ih i

/-- The first parameter without an argument is the same. -/
lemma find?_isNone_like (params : List Formal) : ((params.zip l').find? fun (_, a) => a.isNone).map Prod.fst =
    ((params.zip l).find? fun (_, a) => a.isNone).map Prod.fst := by
  induction h generalizing params with
  | nil => rfl
  | cons h hs ih =>
    cases params with
    | nil => rfl
    | cons p ps =>
      cases h with
      | none => rfl
      | some => exact ih ps

end Slots

/-- One more argument goes to the same parameter, or the same is wrong with it. -/
theorem ArgumentBinding.Like.step (hb : b.Like L b') (ha : a.Like L a') (function : String) (params : List Formal) :
    L.Excepts (ArgumentBinding.Like L) (b.step function params a) (b'.step function params a') := by
  unfold ArgumentBinding.step
  rw [ha.name, hb.free]
  cases a.name with
  | some name =>
    dsimp only
    cases params.findIdx? fun p => !p.anonymous && p.name == name with
    | none => exact .error ⟨rfl,ha.span⟩
    | some i =>
      dsimp only
      rw [isSome_join_like hb.bound i]
      split
      · exact .error ⟨rfl,ha.span⟩
      · exact .ok ⟨set_some_like hb.bound ha i,rfl,hb.surplus⟩
  | none =>
    cases hfree : b.free with
    | nil => exact .ok ⟨hb.bound,rfl,congrArg (· + 1) hb.surplus⟩
    | cons i rest => exact .ok ⟨set_some_like hb.bound ha i,rfl,hb.surplus⟩

/-- The parameters receive arguments that are alike, in the same order. -/
theorem bindArguments_like (hargs : Forall₂ (ArgumentOperand.Like L) args args')
    (hspan : L.span span span') (function : String) (params : List Formal) :
    L.Excepts (Forall₂ (ArgumentOperand.Like L)) (bindArguments function params args span)
      (bindArguments function params args' span') := by
  have hfold {b b' : ArgumentBinding} (hb : b.Like L b') :
      L.Excepts (ArgumentBinding.Like L) (args.foldlM (ArgumentBinding.step function params) b)
        (args'.foldlM (ArgumentBinding.step function params) b') := by
    induction hargs generalizing b b' with
    | nil => exact .ok hb
    | cons ha _ ih =>
      rw [foldlM_cons, foldlM_cons]
      exact (hb.step ha function params).bind fun _ _ hb => ih hb
  have hinitial : (ArgumentBinding.initial params).Like L (ArgumentBinding.initial params) := by
    refine ⟨forall₂_same.2 fun x hx => ?_,rfl,rfl⟩
    obtain ⟨_,-,rfl⟩ := mem_map.1 hx
    exact .none
  refine (hfold hinitial).bind fun b b' hb => ?_
  have hfind := find?_isNone_like hb.bound params
  rw [hb.surplus, hargs.length_eq]
  generalize (params.zip b.bound).find? _ = o at hfind ⊢
  generalize (params.zip b'.bound).find? _ = o' at hfind ⊢
  cases o with
  | some x =>
    cases o' with
    | some x' =>
      obtain ⟨p,x⟩ := x
      obtain ⟨p',x'⟩ := x'
      obtain rfl : p' = p := Option.some.inj hfind
      exact .error ⟨rfl,hspan⟩
    | none => cases hfind
  | none =>
    cases o' with
    | some x' => cases hfind
    | none =>
      dsimp only
      split
      · exact .error ⟨rfl,hspan⟩
      · exact .ok (rel_filterMap (fun _ _ h => h) hb.bound)

/-- The arguments are examined against the types of the parameters, one after the other. -/
theorem checkArguments_agree (ts : List Ty)
    (h : Forall₂ (ArgumentOperand.Like L) args args') : L.Agree Eq (checkArguments ts args) (checkArguments ts args') := by
  induction ts generalizing args args' with
  | nil =>
    exact .pure rfl
  | cons t ts ih =>
    cases h with
    | nil => exact .pure rfl
    | cons h hs => exact (h.value.against t).andThen fun _ => ih hs

/-- A call of a declared function binds and examines its arguments. -/
theorem namedCall_agree (hargs : Forall₂ (ArgumentOperand.Like L) args args')
    (hspan : L.span span span') (name : String) (t : Ty) (params : List Formal) :
    L.Agree Eq (namedCall name t params args span) (namedCall name t params args' span') := by
  cases t with
  | function _ ret =>
    exact .bind (.ofExcept (bindArguments_like hargs hspan name params)) fun _ _ hbound =>
      (checkArguments_agree _ hbound).andThen fun _ => .pure rfl
  | _ => exact .blocked

/-- The first named argument stands at the same place in both. -/
theorem find?_isSome_like (h : Forall₂ (ArgumentOperand.Like L) args args') :
    Option.Rel (ArgumentOperand.Like L) (args.find? (·.name.isSome)) (args'.find? (·.name.isSome)) := by
  induction h with
  | nil => exact .none
  | cons h hs ih =>
    rw [find?_cons, find?_cons, h.name]
    split
    · exact .some h
    · exact ih

/-- A call of a function value takes its arguments in order, and no names. -/
theorem valueCall_agree (hcallee : callee.Like L callee')
    (hargs : Forall₂ (ArgumentOperand.Like L) args args') (hspan : L.span span span') :
    L.Agree Eq (valueCall callee args span) (valueCall callee' args' span') := by
  refine (hcallee.value none).andThen fun t => ?_
  cases t with
  | function params ret =>
    have hnamed := find?_isSome_like hargs
    rw [hargs.length_eq]
    generalize args.find? _ = o at hnamed ⊢
    generalize args'.find? _ = o' at hnamed ⊢
    cases hnamed with
    | some h =>
      dsimp only
      rw [h.name]
      exact .fail h.span
    | none => exact .ite (.fail hspan) ((checkArguments_agree params hargs).andThen fun _ => .pure rfl)
  | _ => exact .mismatch hcallee.expr.span

/-- The type of a name in the place of a function is noted at the name and at the parentheses around it. -/
theorem Likeness.States.recordCallee {s s' : State} (hrel : L.States s s') {callee callee' : Expr}
    (h : callee.Like L callee') (t : Ty) : L.States ((s.step (.typed callee.withoutParens.id t)).step (.typed callee.id t))
      ((s'.step (.typed callee'.withoutParens.id t)).step (.typed callee'.id t)) := by
  obtain ⟨id,span,span',form,form',he,he',-,hid,-⟩ := h.withoutParens
  have hfirst : L.States (s.step (.typed id t)) (s'.step (.typed id t)) := hrel.step (.typed hid t)
  rw [he, he']
  rcases h.id_cases with ⟨hids,hboth⟩ | ⟨halone,hself⟩
  · rw [← hids]
    exact hfirst.step (.typed hboth t)
  · -- without parentheses the two nodes are one
    have hid' : callee'.id = id := by rw [← hself, he']
    rw [hid']
    refine (hfirst.typedAlone halone t).typedAgain ?_
    change (s'.typeOf.insert id t)[id]? = some t
    rw [Table.getElem?_insert, if_pos rfl]

/-- A call is the same kind of call in both trees, whether the callee stands in parentheses or not. -/
theorem callValue_agree (hcallee : callee.Like L callee')
    (hargs : Forall₂ (ArgumentOperand.Like L) args args') (hspan : L.span span span') :
    L.Agree Eq (callValue callee args span) (callValue callee' args' span') := by
  have hvalue := valueCall_agree hcallee hargs hspan
  have hrecord {s s' : State} (hrel : L.States s s') (t : Ty) := hrel.recordCallee hcallee.expr t
  obtain ⟨id,nameSpan,nameSpan',form,form',he,he',hname,-,hform⟩ := hcallee.expr.withoutParens
  unfold callValue
  rw [he, he'] at hrecord ⊢
  cases hform with
  | name name =>
    refine (bindingNamed_agree hname id name).andThen fun b => (referentOf_agree b).andThen fun r => ?_
    cases r with
    | func _ params =>
      refine (readBinding_agree hname b name).andThen fun t => ?_
      exact .of_ends fun s s' hrel => ((namedCall_agree hargs hspan name t params).ends (hrecord hrel t)).mono
        (.trans (.step s rfl) (.step _ rfl)) fun _ _ _ _ h => h
    | var | const => exact hvalue
  | _ => exact hvalue

/-! ## Array literals -/

/-- The elements of an array are examined against one type. -/
theorem checkElements_agree (t : Ty) (h : Forall₂ (Operand.Like L) os os') :
    L.Agree Eq (checkElements t os) (checkElements t os') := by
  induction h with
  | nil => exact .pure rfl
  | cons h _ ih => exact (h.against t).andThen fun _ => ih

/-- The element that decides on the type of an array stands at the same place. -/
theorem decidingElement_like (h : Forall₂ (Operand.Like L) os os') :
    ∃ i : Nat, decidingElement os = os[i]? ∧ decidingElement os' = os'[i]? := by
  have hfind : (∃ i : Nat, (os.find? fun o => !o.expr.isContextual) = os[i]? ∧
      (os'.find? fun o => !o.expr.isContextual) = os'[i]? ∧ os[i]?.isSome ∧ os'[i]?.isSome) ∨
      (os.find? fun o => !o.expr.isContextual) = none ∧ (os'.find? fun o => !o.expr.isContextual) = none := by
    induction h with
    | nil => exact .inr ⟨rfl,rfl⟩
    | @cons o o' l l' h hs ih =>
      rw [find?_cons, find?_cons, h.expr.isContextual_eq]
      split
      · exact .inl ⟨0,rfl,rfl,rfl,rfl⟩
      · rcases ih with ⟨i,hi⟩ | hnone
        · exact .inl ⟨i + 1,hi⟩
        · exact .inr hnone
  rw [decidingElement, decidingElement]
  rcases hfind with ⟨i,hi,hi',hsome,hsome'⟩ | ⟨hnone,hnone'⟩
  · refine ⟨i,?_,?_⟩
    · rw [hi, Option.or_of_isSome hsome]
    · rw [hi', Option.or_of_isSome hsome']
  · refine ⟨0,?_,?_⟩
    · rw [hnone, Option.none_or, head?_eq_getElem?]
    · rw [hnone', Option.none_or, head?_eq_getElem?]

section

variable (h : Forall₂ (Operand.Like L) os os') (hids : SamePattern (os.map (·.expr.id)) (os'.map (·.expr.id)))
include h hids

/-- The other elements are the same in both lists, if equal numbers stand at the same places. -/
theorem filter_ne_like {i : Nat} (ho : os[i]? = some o) (ho' : os'[i]? = some o') :
    Forall₂ (Operand.Like L) (os.filter fun x => x.expr.id ≠ o.expr.id) (os'.filter fun x => x.expr.id ≠ o'.expr.id) := by
  have hboth : Forall₂ (fun x x' => x.Like L x' ∧ (x.expr.id = o.expr.id ↔ x'.expr.id = o'.expr.id)) os os' := by
    refine forall₂_iff_get.2 ⟨h.length_eq,fun j hj hj' => ⟨h.get hj hj',?_⟩⟩
    have hpattern := hids j i
    simp only [getElem?_map, ho, ho', getElem?_eq_getElem hj, getElem?_eq_getElem hj', Option.map_some,
      Option.some.injEq] at hpattern
    exact hpattern
  have hfilter := rel_filter (p := fun x => decide (x.expr.id ≠ o.expr.id))
    (q := fun x => decide (x.expr.id ≠ o'.expr.id)) (fun x x' hx => by simp [hx.2]) hboth
  exact hfilter.imp fun _ _ h => h.1

/-- An array literal has the same type, given by its place or by its own elements. -/
theorem arrayValue_agree (hspan : L.span span span') (expected : Option Ty) :
    L.Agree Eq (arrayValue os span expected) (arrayValue os' span' expected) := by
  have hown : L.Agree Eq (ownArrayValue os span) (ownArrayValue os' span') := by
    obtain ⟨i,hi,hi'⟩ := decidingElement_like h
    unfold ownArrayValue
    rw [hi, hi', h.length_eq]
    cases ho : os[i]? with
    | none =>
      have ho' : os'[i]? = none := by
        rw [getElem?_eq_none_iff] at ho ⊢
        rwa [← h.length_eq]
      rw [ho']
      exact .fail hspan
    | some o =>
      obtain ⟨hlt,rfl⟩ := List.getElem?_eq_some_iff.1 ho
      have hlt' : i < os'.length := h.length_eq ▸ hlt
      have ho' := getElem?_eq_getElem hlt'
      have hlike : (os[i]).Like L os'[i] := h.get hlt hlt'
      rw [ho']
      refine (hlike.value none).andThen fun t => .ite (.fail hlike.expr.span) ?_
      exact (checkElements_agree t (filter_ne_like h hids ho ho')).andThen fun _ => .lift (.built _)
  unfold arrayValue
  split
  · rw [h.length_eq]
    exact .ite (.fail hspan) ((checkElements_agree _ h).andThen fun _ => .pure rfl)
  · exact .blocked
  · exact hown

end

/-! ## Lambdas -/

lemma ownParamType_agree (h : p.Like L p') : L.Agree Eq (ownParamType p) (ownParamType p') := by
  cases h with
  | mk hspan h =>
    cases h with
    | none => exact .fail (L.span_of_name hspan)
    | some h => exact denoteHere_agree h .value

/-- A parameter of a lambda has its own type or the wanted one, in both. -/
theorem lambdaParamType_agree (h : p.Like L p') (wanted : Ty) :
    L.Agree Eq (lambdaParamType p wanted) (lambdaParamType p' wanted) := by
  cases h with
  | mk hspan h =>
    cases h with
    | none => exact .pure rfl
    | some h => exact (denoteHere_agree h .value).andThen fun t => .ite (.mismatch h.span) (.pure rfl)

/-- The parameters of a lambda have the same types, wanted or not. -/
theorem lambdaParamTypes_agree (h : Forall₂ (LambdaParam.Like L) ps ps') (hspan : L.span span span') (target : Option (List Ty)) :
    L.Agree Eq (lambdaParamTypes ps target span) (lambdaParamTypes ps' target span') := by
  cases target with
  | none => exact .mapM (fun _ _ h => ownParamType_agree h) h
  | some wanted =>
    have hzip : Forall₂ (fun x x' => x.1.Like L x'.1 ∧ x.2 = x'.2) (ps.zip wanted) (ps'.zip wanted) := by
      clear hspan
      induction h generalizing wanted with
      | nil => exact .nil
      | cons h _ ih =>
        cases wanted with
        | nil => exact .nil
        | cons t ts => exact .cons ⟨h,rfl⟩ (ih ts)
    unfold lambdaParamTypes
    rw [h.length_eq]
    refine .ite (.fail hspan) (.mapM ?_ hzip)
    rintro ⟨p,t⟩ ⟨p',t'⟩ ⟨hp,ht⟩
    obtain rfl : t = t' := ht
    exact lambdaParamType_agree hp t

lemma lambdaReturn_agree (h : Option.Rel (TypeExpr.Like L) ret ret')
    (target : Option Ty) : L.Agree Eq (lambdaReturn ret target) (lambdaReturn ret' target) := by
  cases h with
  | none => exact .pure rfl
  | some h =>
    refine (denoteHere_agree h .result).andThen fun t => ?_
    cases target with
    | none => exact .pure rfl
    | some wanted => exact .ite (.mismatch h.span) (.pure rfl)

/-- The parameters of a lambda are bound in the scope of its body. -/
theorem declareLambdaParams_agree (h : Forall₂ (LambdaParam.Like L) ps ps') :
    ∀ ts : List Ty, L.Agree Eq (declareLambdaParams ps ts) (declareLambdaParams ps' ts) fun _ => True := by
  induction h with
  | nil => exact fun _ => .pure rfl
  | cons h _ ih =>
    intro ts
    cases ts with
    | nil => exact .pure rfl
    | cons t ts =>
      cases h with
      | mk hspan _ =>
        exact .inCurrent fun w => (declareIn_inStep rfl trivial hspan _).bind fun w1 _ _ _ _ => ih ts w1

/-- A lambda has the same type if its bodies agree in a scope of their own. -/
theorem lambdaValue_agree (hparams : Forall₂ (LambdaParam.Like L) ps ps')
    (hret : Option.Rel (TypeExpr.Like L) ret ret') {body body' : Option Ty → Check Ty}
    (hbody : ∀ known, L.Agree Eq (body known) (body' known) fun _ => True) (hspan : L.span span span') (expected : Option Ty) :
    L.Agree Eq (lambdaValue ps ret body span expected) (lambdaValue ps' ret' body' span' expected) :=
  (lambdaParamTypes_agree hparams hspan _).andThen fun ts => (lambdaReturn_agree hret _).andThen fun known =>
    .andThen (.inNewScope ((declareLambdaParams_agree hparams ts).andThen fun _ => hbody known)) fun _ =>
      .lift (.built _)

lemma exprBody_agree (h : o.Like L o') (known : Option Ty) : L.Agree Eq (exprBody o known) (exprBody o' known) := by
  unfold exprBody
  split
  · exact h.value none
  · exact (h.value none).andThen fun _ => .pure rfl
  · exact (h.against _).andThen fun _ => .pure rfl

/-- The body of a lambda may bind names of its own. -/
theorem blockBody_agree (h : L.RunAgree Eq x x' opens) (known : Option Ty) :
    L.Agree Eq (blockBody x known) (blockBody x' known) opens :=
  .andThen (.lift (.returning _ h)) fun _ => .pure rfl

/-! ## Statements -/

/-- An assignment is accepted at the same places, and fails for the same reason. -/
theorem assignStmt_agree {target target' value value' : Operand} (htarget : target.Like L target')
    (hvalue : value.Like L value') : L.Agree Eq (assignStmt target value) (assignStmt target' value') := by
  refine (htarget.place _).andThen fun place => .ite ((hvalue.against _).andThen fun _ => .pure rfl) ?_
  cases place.origin <;> exact .fail htarget.expr.span

/-- A returned value is compared with the result type around it. -/
theorem returnStmt_agree (h : o.Like L o') : L.Agree Eq (returnStmt o) (returnStmt o') :=
  .andThen (.lift .resultType) fun _ => .ite ((h.value none).andThen fun _ => .mismatch h.expr.span)
    ((h.against _).andThen fun _ => .pure rfl)

lemma bareReturnStmt_agree (hspan : L.span span span') : L.Agree Eq (bareReturnStmt span) (bareReturnStmt span') :=
  .andThen (.lift .resultType) fun _ => .ite (.pure rfl) (.mismatch hspan)

lemma ifStmt_agree (h : o.Like L o') (hx : L.RunAgree Eq x x' opens) : L.Agree Eq (ifStmt o x) (ifStmt o' x') :=
  (h.against _).andThen fun _ => .inNewScope (.lift hx)

lemma ifElseStmt_agree (h : o.Like L o') (hx : L.RunAgree Eq x x' opens)
    {m m' : Check Unit} (hm : L.Agree Eq m m') : L.Agree Eq (ifElseStmt o x m) (ifElseStmt o' x' m') :=
  (ifStmt_agree h hx).andThen fun _ => .lift (.reported hm)

/-! ## Declarations -/

section Declarations

variable {ps ps' : List Param}

/-- A declaration binds the same name, or the same is wrong with it. -/
theorem declareOne_inStep (h : d.Like L d') (hscope : w.scopes.current = scope)
    (hname : opens d.name) : (L.coupling opens).RunInStep w (declareOne scope d) (declareOne scope d') fun _ => Eq := by
  refine Likeness.RunAgree.reported_inStep (R := Eq) ?_
  rw [h.name_eq, h.referent_eq]
  exact (declareIn_inStep hscope hname h.nameSpan _).bind fun w1 b _ _ hb =>
    hb ▸ .lift (Likeness.RunAgree.perform (.introduced h b) rfl w1)

/-- Declarations bind their names one after the other, all in the current scope. -/
theorem declareEach_inStep (h : Forall₂ (Decl.Like L) ds ds')
    (hscope : w.scopes.current = scope) (hnames : ∀ d ∈ ds, opens d.name) :
    (L.coupling opens).RunInStep w (ds.forM (declareOne scope)) (ds'.forM (declareOne scope)) fun _ => Eq := by
  induction h generalizing w with
  | nil => exact .pure rfl
  | cons h _ ih =>
    obtain ⟨hname,hnames⟩ := forall_mem_cons.1 hnames
    exact (declareOne_inStep h hscope hname).bind fun w1 _ _ hle _ => ih (hle.current.trans hscope) hnames

/-- The parameters of a function have the same names and types. -/
theorem formals_agree (h : Forall₂ (Param.Like L) ps ps') : L.Agree Eq (formals ps) (formals ps') := by
  induction h with
  | nil => exact .pure rfl
  | cons h _ ih =>
    cases h with
    | mk hspan h => exact (denoteHere_agree h .value).andThen fun t => ih.andThen fun fs => .pure rfl

lemma writtenResult_agree (h : Option.Rel (TypeExpr.Like L) ret ret') :
    L.Agree Eq (writtenResult ret) (writtenResult ret') := by
  cases h with
  | none => exact .pure rfl
  | some h => exact denoteHere_agree h .result

/-- What is done with a declaration depends on whether its name was accepted, which is so in both or in none. -/
theorem ifAccepted_agree (id : NodeId) {m m' : BindingId → Check Unit} (h : ∀ b, L.Agree Eq (m b) (m' b)) :
    L.Agree Eq (ifAccepted id m) (ifAccepted id m') := by
  refine .andThen (.lift (.of_ends fun s s' hs => ⟨.refl s,hs,?_⟩)) fun o => ?_
  · change s.introduces[id]? = s'.introduces[id]?
    rw [hs.introduces]
  · cases o with
    | some b => exact h b
    | none => exact .pure rfl

/-- Only functions have a signature, and it is the same. -/
theorem signature_agree (h : d.Like L d') : L.Agree Eq (signature d) (signature d') := by
  cases h with
  | var | const => exact .pure rfl
  | func h =>
    cases h with
    | mk _ _ _ hparams hret =>
      exact ifAccepted_agree _ fun b => (formals_agree hparams).andThen fun fs => (writtenResult_agree hret).andThen fun t =>
        .andThen (.lift (.built _)) fun t => .lift (.modifyReferent b _)

/-- All names of a block are bound before any signature is read. -/
theorem declareAll_agree (h : Forall₂ (Decl.Like L) ds ds') (hnames : ∀ d ∈ ds, opens d.name) :
    L.RunAgree Eq (declareAll ds) (declareAll ds') opens := by
  have hsigned : L.RunAgree Eq (ds.forM fun d => reported (signature d)) (ds'.forM fun d => reported (signature d)) :=
    .forM (fun _ _ h => .reported (R := Eq) (signature_agree h)) h
  exact .inCurrent fun w => (declareEach_inStep h rfl hnames).bind fun w1 _ _ _ _ => hsigned.weaken (fun _ => False.elim) w1

lemma varType_agree (name : String) (ht : Option.Rel (TypeExpr.Like L) t t')
    (ho : o.Like L o') : L.Agree Eq (varType name t o) (varType name t' o') := by
  cases ht with
  | none => exact (ho.value none).andThen fun _ => .ite (.fail ho.expr.span) (.pure rfl)
  | some h => exact (denoteHere_agree h .value).andThen fun t => (ho.against t).andThen fun _ => .pure rfl

/-- A variable has the same type, or is marked as failed in both runs. -/
theorem varDecl_agree (name : String) (ht : Option.Rel (TypeExpr.Like L) t t')
    (ho : o.Like L o') (b : BindingId) : L.Agree Eq (varDecl name t o b) (varDecl name t' o' b) := by
  refine .andThen (.lift (.modifyReferent b _)) fun _ => .tryCatch ?_ fun stop stop' hstop => ?_
  · exact (varType_agree name ht ho).andThen fun t => .lift (.modifyReferent b _)
  · exact .andThen (.lift (.modifyReferent b _)) fun _ => .throw hstop

lemma declareParams_inStep (hscope : w.scopes.current = scope)
    (h : Forall₂ (Param.Like L) ps ps') : ∀ fs : List Formal, (L.coupling fun _ => True).RunInStep w
      (declareParams scope ps fs) (declareParams scope ps' fs) fun _ => Eq := by
  induction h generalizing w with
  | nil => exact fun _ => .pure rfl
  | cons h _ ih =>
    intro fs
    cases fs with
    | nil => exact .pure rfl
    | cons f fs =>
      cases h with
      | mk hspan _ =>
        refine .bind (Likeness.RunAgree.reported_inStep (R := Eq) ?_) fun w1 _ _ hle _ => ih (hle.current.trans hscope) fs
        exact (declareIn_inStep hscope trivial hspan _).bind fun w1 _ _ _ _ => .pure rfl

/-- The body of a function is examined in a new scope that binds the parameters. -/
theorem funDecl_agree (hparams : Forall₂ (Param.Like L) ps ps')
    (hx : L.RunAgree Eq x x' fun _ => True) (b : BindingId) : L.Agree Eq (funDecl ps x b) (funDecl ps' x' b) := by
  refine (referentOf_agree b).andThen fun r => ?_
  split
  · exact .inNewScope (.inCurrent fun w => .bind (.lift (declareParams_inStep rfl hparams _)) fun w1 _ _ _ _ =>
      .lift (Likeness.RunAgree.returning _ hx w1))
  · exact .pure rfl

end Declarations

/-! ## Trees -/

/-- Blocks that are alike declare the same names in the same order. -/
theorem Block.Like.decls {b b' : Block} (h : b.Like L b') : Forall₂ (Decl.Like L) b.decls b'.decls := by
  cases h with
  | mk _ _ h =>
    refine rel_filterMap (fun st st' hst => ?_) h
    cases hst with
    | mk _ h =>
      cases h with
      | decl h => exact .some h
      | _ => exact .none

lemma map_id_operands (es : List Expr) : (operands es).map (·.expr.id) = es.map Expr.id := by
  rw [← map_expr_operands es, map_map, map_expr_operands]
  rfl

mutual

/-- Expressions that are alike are operands that are alike. Parentheses in one tree alone add a type for their own
node, and nothing else. -/
theorem Expr.Like.operand : ∀ {e e' : Expr}, e.Like L e' → e.operand.Like L e'.operand
  | ⟨id,_,.paren e⟩, _, .unwrapped hbare hspan hid h => by
    have ho := h.operand
    refine ⟨?_,fun expected => ?_,fun use => ?_⟩
    · rw [Expr.expr_operand, Expr.expr_operand]
      exact .unwrapped hbare hspan hid h
    · rw [Expr.operand]
      exact .begunAlone (.recordAlone (ho.value expected) hid fun t => t) id expected
    · rw [Expr.operand]
      exact .recordAlone (ho.place use) hid Place.type
  | ⟨id,_,form⟩, ⟨_,_,_⟩, .node hspan hid h => by
    refine ⟨.node hspan hid h,fun expected => ?_,fun use => ?_⟩
    · exact .andThen (.lift (.perform (.begun ..))) fun _ =>
        (form.value_agree_of_like h id hspan expected).andThen fun t =>
          .andThen (.lift (.perform (.typed hid t))) fun _ => .pure rfl
    · exact (form.place_agree_of_like h id hspan use).andThen fun place =>
        .andThen (.lift (.perform (.typed hid place.type))) fun _ => .pure rfl
termination_by structural x => x

/-- Forms that are alike have the same type, found in the same steps. -/
theorem ExprForm.value_agree_of_like (form : ExprForm) {form' : ExprForm} (h : form.Like L form') (id : NodeId)
    {span span' : Span} (hspan : L.span span span') (expected : Option Ty) :
    L.Agree Eq (form.value id span expected) (form'.value id span' expected) :=
  match form, form', h with
  | .int text, _, .int _ => (literalOfType_agree hspan text false expected).andThen fun _ => .pure rfl
  | .bool _, _, .bool _ | .char _, _, .char _ | .string _, _, .string _ => .pure rfl
  | .name name, _, .name _ => readName_agree hspan id name
  | .binary op _ _, _, .binary _ hl hr => binaryValue_agree hl.operand hr.operand op
  | .unary .neg e, .unary .neg e', .negated hlit hlit' hid => by
    rw [← e.expr_operand] at hlit hid
    rw [← e'.expr_operand] at hlit' hid
    exact negationValue_literal_agree hlit hlit' hid hspan
  | .unary .neg e, _, .unary _ hlit h => negationValue_agree h.operand (by rw [e.expr_operand, hlit rfl])
  | .unary .not _, _, .unary _ _ h => complementValue_agree h.operand
  | .addressOf _, _, .addressOf h => addressValue_agree h.operand
  | .deref _, _, .deref h => derefValue_agree h.operand
  | .index _ _, _, .index hbase hindex => indexValue_agree hbase.operand hindex.operand
  | .call _ args, _, .call hcallee hargs => callValue_agree hcallee.operand (argumentOperands_like args hargs) hspan
  | .array es, _, .array hes hids => by
    refine arrayValue_agree (operands_like es hes) ?_ hspan expected
    rwa [map_id_operands, map_id_operands]
  | .lambda _ _ body, _, .lambda hparams hret hbody =>
    lambdaValue_agree hparams hret (fun known => body.check_agree_of_like hbody known) hspan expected
  | .paren _, _, .paren _ h => h.operand.value expected
termination_by structural form

/-- Forms that are alike are the same place. -/
theorem ExprForm.place_agree_of_like (form : ExprForm) {form' : ExprForm} (h : form.Like L form') (id : NodeId)
    {span span' : Span} (hspan : L.span span span') (use : PlacePurpose) :
    L.Agree Eq (form.place id span use) (form'.place id span' use) := by
  cases form with
  | paren e =>
    cases h with
    | paren _ h => exact h.operand.place use
  | name name =>
    cases h
    exact namedPlace_agree hspan id name use
  | deref e =>
    cases h with
    | deref h => exact derefPlace_agree h.operand
  | index base index =>
    cases h with
    | index hbase hindex => exact indexPlace_agree hbase.operand hindex.operand use
  | _ => cases h <;> exact .fail hspan
termination_by structural form

lemma operands_like : ∀ (es : List Expr) {es' : List Expr}, Forall₂ (Expr.Like L) es es' →
    Forall₂ (Operand.Like L) (operands es) (operands es')
  | [], _, .nil => .nil
  | _ :: es, _, .cons h hs => .cons h.operand (operands_like es hs)
termination_by structural x => x

lemma argumentOperands_like : ∀ (as : List Argument) {as' : List Argument}, Forall₂ (Argument.Like L) as as' →
    Forall₂ (ArgumentOperand.Like L) (argumentOperands as) (argumentOperands as')
  | [], _, .nil => .nil
  | ⟨_,_,_⟩ :: as, _, .cons (.mk hspan h) hs => .cons ⟨rfl,hspan,h.operand⟩ (argumentOperands_like as hs)
termination_by structural x => x

/-- The bodies of lambdas that are alike have the same type. -/
theorem LambdaBody.check_agree_of_like : ∀ (body : LambdaBody) {body' : LambdaBody}, body.Like L body' → ∀ known,
    L.Agree Eq (body.check known) (body'.check known) fun _ => True
  | .expr _, _, .expr h, known => (exprBody_agree h.operand known).weaken fun _ _ => trivial
  | .block _, _, .block h, known => (blockBody_agree h.check_agree known).weaken fun _ _ => trivial
termination_by structural x => x

/-- Blocks that are alike are examined in the same steps, in which they bind the names they declare. -/
theorem Block.Like.check_agree : ∀ {b b' : Block}, b.Like L b' → L.RunAgree Eq b.check b'.check (· ∈ b.decls.map Decl.name)
  | ⟨stmts,span⟩, _, .mk _ span' h =>
    (declareAll_agree (Block.Like.mk span span' h).decls fun _ => mem_map_of_mem).andThen fun _ =>
      (checkStmts_agree stmts h).weaken fun _ => False.elim
termination_by structural x => x

lemma checkStmts_agree : ∀ (ss : List Stmt) {ss' : List Stmt}, Forall₂ (Stmt.Like L) ss ss' →
    L.RunAgree Eq (checkStmts ss) (checkStmts ss')
  | [], _, .nil => .pure rfl
  | _ :: ss, _, .cons h hs => .andThen (.reported h.check_agree) fun _ => checkStmts_agree ss hs
termination_by structural x => x

/-- Statements that are alike are examined in the same steps. -/
theorem Stmt.Like.check_agree : ∀ {st st' : Stmt}, st.Like L st' → L.Agree Eq st.check st'.check
  | ⟨_,.decl _⟩, _, .mk _ (.decl h) => h.check_agree
  | ⟨_,.assign _ _⟩, _, .mk _ (.assign htarget hvalue) => assignStmt_agree htarget.operand hvalue.operand
  | ⟨_,.expr _⟩, _, .mk _ (.expr h) => (h.operand.value none).andThen fun _ => .pure rfl
  | ⟨_,.ret none⟩, _, .mk hspan (.ret .none) => bareReturnStmt_agree hspan
  | ⟨_,.ret (some _)⟩, _, .mk _ (.ret (.some h)) => returnStmt_agree h.operand
  | ⟨_,.cond _ _ none⟩, _, .mk _ (.cond hc ht .none) => ifStmt_agree hc.operand ht.check_agree
  | ⟨_,.cond _ _ (some _)⟩, _, .mk _ (.cond hc ht (.some he)) => ifElseStmt_agree hc.operand ht.check_agree he.check_agree
  | ⟨_,.loop _ _⟩, _, .mk _ (.loop hc hb) => ifStmt_agree hc.operand hb.check_agree
  | ⟨_,.block _⟩, _, .mk _ (.block h) => .inNewScope (.lift h.check_agree)
termination_by structural x => x

/-- Declarations that are alike are examined in the same steps. -/
theorem Decl.Like.check_agree : ∀ {d d' : Decl}, d.Like L d' → L.Agree Eq d.check d'.check
  | .var ⟨_,_,_,_,_,_,_⟩, _, .var (.mk _ _ _ htype hinit) =>
    ifAccepted_agree _ fun b => varDecl_agree _ htype hinit.operand b
  | .const ⟨_,_,_,_,_,_⟩, _, .const (.mk ..) =>
    ifAccepted_agree _ fun b => (constantValue_agree b).andThen fun _ => .pure rfl
  | .func ⟨_,_,_,_,_,_,_⟩, _, .func (.mk _ _ _ hparams _ hbody) =>
    ifAccepted_agree _ fun b => funDecl_agree hparams (hbody.check_agree.weaken fun _ _ => trivial) b
termination_by structural x => x

end

lemma Decl.Like.isFunction_eq (h : d.Like L d') : d'.isFunction = d.isFunction := by
  cases h <;> rfl

/-- Modules with declarations that are alike are examined in the same steps. -/
theorem Module.run_agree {m m' : Module} (h : Forall₂ (Decl.Like L) m.decls m'.decls) :
    L.RunAgree Eq m.run m'.run fun _ => True := by
  have horder : Forall₂ (Decl.Like L) m.checkOrder m'.checkOrder :=
    rel_append (rel_filter (fun _ _ h => by simp [h.isFunction_eq]) h) (rel_filter (fun _ _ h => by simp [h.isFunction_eq]) h)
  exact (declareAll_agree h fun _ _ => trivial).andThen fun _ =>
    .weaken (.forM (P := Decl.Like L) (f := fun d => reported d.check) (fun _ _ h => .reported h.check_agree) horder)
      fun _ => False.elim

end Opal
