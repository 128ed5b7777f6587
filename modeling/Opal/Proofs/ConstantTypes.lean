import Opal.Proofs.Hoisting

/-!
# The types of constant expressions

The evaluator computes the value of an expression over literals and constants, and the rules of expressions find its type. The
two are related outcome by outcome.
-/

namespace Opal

mutual

/-- The expression is built from literals and from names of constants that have a value, as seen from the current
scope. -/
def Expr.Evaluable (scopes : ScopeTree) : Expr → Prop
  | ⟨_,_,form⟩ => form.Evaluable scopes

def ExprForm.Evaluable (scopes : ScopeTree) : ExprForm → Prop
  | .int _ | .bool _ | .char _ => True
  | .name name => ∃ b x t v, scopes.nearest? scopes.current name = some b ∧
      scopes.bindings[b]? = some x ∧ x.referent = .const t (.done v)
  | .unary _ e | .paren e => e.Evaluable scopes
  | .binary _ l r => l.Evaluable scopes ∧ r.Evaluable scopes
  | _ => False

end

/-- The causes of a constant expression that is well typed but has no value. -/
def SemanticCause.IsArithmetic (cause : SemanticCause) : Prop :=
  (∃ type, cause = .arithmeticOverflow type) ∨ cause = .divisionByZero

/-! ### Outcomes that depend on the scopes alone -/

/-- In every state with these scopes the computation ends with `r` and leaves the scopes as they are. -/
def Answers {α : Type} (scopes : ScopeTree) (m : Check α) (r : Except Stop α) : Prop :=
  ∀ s : State, s.scopes = scopes → (m.run s).1 = r ∧ (m.run s).2.scopes = scopes

namespace Answers

variable {α β : Type} {scopes : ScopeTree} {m : Check α} {r : Except Stop β} {f : Unit → Check β} {id : NodeId} {b : BindingId}
    {x : Binding}

lemma pure (a : α) : Answers scopes (Pure.pure a) (.ok a) :=
  fun _ hs => ⟨rfl,hs⟩

lemma throw (stop : Stop) : Answers scopes (MonadExcept.throw stop : Check α) (.error stop) :=
  fun _ hs => ⟨rfl,hs⟩

lemma mismatch (expected found : String) (span : Span) : Answers scopes (Check.mismatch expected found span : Check α)
      (.error (.error ⟨.typeMismatch expected found,span⟩)) :=
  .throw _

lemma bind {f : α → Check β} {a : α} (hm : Answers scopes m (.ok a))
    (hf : Answers scopes (f a) r) : Answers scopes (m >>= f) r := by
  intro s hs
  obtain ⟨hr,hs1⟩ := hm s hs
  rw [Check.run_bind, hr]
  exact hf _ hs1

lemma stop {stop : Stop} (hm : Answers scopes m (.error stop)) (f : α → Check β) : Answers scopes (m >>= f) (.error stop) := by
  intro s hs
  obtain ⟨hr,hs1⟩ := hm s hs
  rw [Check.run_bind, hr]
  exact ⟨rfl,hs1⟩

lemma perform {e : Event} (he : ∀ s : State, (s.apply e).scopes = s.scopes) (hf : Answers scopes (f ()) r) :
    Answers scopes ((liftM (Opal.perform e) : Check Unit) >>= f) r :=
  .bind (fun s hs => ⟨rfl,(he s).trans hs⟩) hf

lemma recordType {t : Ty} (hf : Answers scopes (f ()) r) :
    Answers scopes ((liftM (Opal.recordType id t) : Check Unit) >>= f) r :=
  .perform (fun _ => rfl) hf

lemma literalOfType (scopes : ScopeTree) (text : String) (negative : Bool) (expected : Option Ty) (span : Span) :
    ∃ r, Answers scopes (Opal.literalOfType text negative expected span) r := by
  unfold Opal.literalOfType
  cases expected with
  | none => exact ⟨_,.throw _⟩
  | some t =>
    cases t with
    | int i =>
      dsimp only
      split
      · exact ⟨_,.throw _⟩
      · next magnitude _ =>
        by_cases h : i.contains (if negative then -magnitude else magnitude) = true
        · rw [if_pos h]
          exact ⟨_,.pure _⟩
        · rw [if_neg h]
          exact ⟨_,.throw _⟩
    | _ => exact ⟨_,.throw _⟩

lemma constantValue {t : Option Ty} {v : Value} (hx : scopes.bindings[b]? = some x) (hr : x.referent = .const t (.done v)) :
    Answers scopes (Opal.constantValue b) (.ok v) := by
  intro s hs
  obtain ⟨name,scope,span,referent⟩ := x
  obtain rfl : referent = _ := hr
  have hrun : (Opal.constantValue b).run s = (.ok v, s) := by
    rw [run_constantValue, constantWithin, evaluateWith, Check.run_bind, Check.run_get]
    simp only [hs, hx]
    rfl
  rw [hrun]
  exact ⟨rfl,hs⟩

lemma findFrom {scope : ScopeId} {name : String} {span : Span}
    (h : scopes.nearest? scope name = some b) : Answers scopes (Opal.findFrom scope id name span) (.ok b) := by
  intro s hs
  rw [run_findFrom, hs, ScopeTree.lookup, h]
  exact ⟨rfl,hs⟩

lemma referentOf (h : scopes.bindings[b]? = some x) : Answers scopes (Opal.referentOf b) (.ok x.referent) := by
  intro s hs
  rw [run_referentOf (s := s) (r := x.referent) (by rw [Findings.referent?, hs, h]; rfl)]
  exact ⟨rfl,hs⟩

end Answers

/-! ### Outcomes that go together -/

/-- A type is what is expected, if anything is. -/
def Admitted (expected : Option Ty) (t : Ty) : Prop :=
  ∀ T ∈ expected, T = .error ∨ t = T

/-- How an outcome of the evaluator and an outcome of the rules go together. The evaluator compares types with what is
expected on its way, while the rules leave this to the end. -/
inductive Tallies (expected : Option Ty) : Except Stop Value → Except Stop Ty → Prop
  /-- A value, and its type. -/
  | value (v : Value) : Tallies expected (.ok v) (.ok v.type)
  /-- The value is out of range. -/
  | arithmetic {e : SemanticError} {r : Except Stop Ty} (he : e.cause.IsArithmetic)
      (hr : ∀ t, r = .ok t → t.isScalar = true) : Tallies expected (.error (.error e)) r
  /-- The type is not what is expected. -/
  | misfit {stop : Stop} {t : Ty} (ht : t.isScalar = true) (hmisfit : ¬ Admitted expected t) :
      Tallies expected (.error stop) (.ok t)
  | neither (stop stop' : Stop) : Tallies expected (.error stop) (.error stop')

/-- The outcomes of the evaluator and of the rules go together. -/
def Tallied (scopes : ScopeTree) (expected : Option Ty) (m : Check Value) (n : Check Ty) : Prop :=
  ∃ r r', Answers scopes m r ∧ Answers scopes n r' ∧ Tallies expected r r'

/-- The outcomes go together, and a value has the expected type. -/
def TalliedAs (scopes : ScopeTree) (expected : Option Ty) (m : Check Value) (n : Check Ty) : Prop :=
  ∃ r r', Answers scopes m r ∧ Answers scopes n r' ∧ Tallies expected r r' ∧ ∀ v, r = .ok v → Admitted expected v.type

lemma Value.isScalar_type (v : Value) : v.type.isScalar = true := by
  cases v <;> rfl

lemma Ty.ne_error_of_isScalar {t : Ty} (h : t.isScalar = true) : t ≠ .error := by
  rintro rfl
  cases h

lemma Ty.ok_fit_iff {t T : Ty} (ht : t.isScalar = true) : (Ty.fit t T).ok = true ↔ Admitted (some T) t := by
  have hne := Ty.ne_error_of_isScalar ht
  have hadmitted : Admitted (some T) t ↔ T = .error ∨ t = T := by simp [Admitted]
  rw [hadmitted]
  unfold Ty.fit
  by_cases h : t = T ∨ t = .error ∨ T = .error
  · rw [if_pos h]
    exact ⟨fun _ => by tauto,fun _ => rfl⟩
  · rw [if_neg h]
    have hfalse : ¬(T = .error ∨ t = T) := by tauto
    cases t <;> cases ht <;> simp [Ty.Fit.ok, hfalse]

lemma Ty.fit_eq_equal_iff {t u : Ty} (ht : t.isScalar = true) (hu : u.isScalar = true) : Ty.fit t u = .equal ↔ t = u := by
  have hne := Ty.ne_error_of_isScalar ht
  have hne' := Ty.ne_error_of_isScalar hu
  unfold Ty.fit
  by_cases h : t = u
  · rw [if_pos (.inl h)]
    simp [h]
  · rw [if_neg (by tauto)]
    cases t <;> cases ht <;> simp [h]

variable {scopes : ScopeTree} {expected : Option Ty}

/-- The evaluator compares the value of an expression with what is expected, the rules note its type. -/
theorem Tallied.expr {m : Check Value} {n : Check Ty} (h : Tallied scopes expected m n) (id : NodeId) (span : Span) :
    TalliedAs scopes expected (do
        perform (.begun id expected)
        let v ← m
        requireType v expected span
        recordType id v.type
        return v)
      (do
        perform (.begun id expected)
        let t ← n
        recordType id t
        return t) := by
  obtain ⟨r,r',hr,hr',ht⟩ := h
  have hbegun : ∀ s : State, (s.apply (.begun id expected)).scopes = s.scopes := fun _ => rfl
  -- The outcome of the rules is that of the form.
  have hrules : Answers scopes (do
        perform (.begun id expected)
        let t ← n
        recordType id t
        return t) r' := by
    refine .perform hbegun ?_
    match r', hr' with
    | .ok t, hr' => exact .bind hr' (.recordType (.pure t))
    | .error stop, hr' => exact .stop hr' _
  match r, hr, ht with
  | .error stop, hr, ht =>
    exact ⟨_,_,.perform hbegun (.stop hr _),hrules,ht,fun v hv => by cases hv⟩
  | .ok v, hr, .value _ =>
    have hscalar := v.isScalar_type
    by_cases hadmitted : Admitted expected v.type
    · have hrequire : Answers scopes (requireType v expected span) (.ok ()) := by
        unfold requireType
        split
        · exact .pure ()
        · next T =>
          have := hadmitted T rfl
          rw [if_neg (by tauto)]
          exact .pure ()
      exact ⟨_,_,.perform hbegun (.bind hr (.bind hrequire (.recordType (.pure v)))),hrules,.value v,
        fun w hw => by cases hw; exact hadmitted⟩
    · obtain ⟨stop,hrequire⟩ : ∃ stop, Answers scopes (requireType v expected span) (.error stop) := by
        unfold requireType
        split
        · exact absurd (fun T hT => by cases hT) hadmitted
        · next T =>
          have : ¬(T = .error ∨ v.type = T) := fun h => hadmitted fun T' hT' => by cases hT'; exact h
          rw [if_pos (by tauto)]
          exact ⟨_,.mismatch _ _ _⟩
      exact ⟨_,_,.perform hbegun (.bind hr (.stop hrequire _)),hrules,.misfit hscalar hadmitted,fun w hw => by cases hw⟩

lemma TalliedAs.tallied {m : Check Value} {n : Check Ty} (h : TalliedAs scopes expected m n) : Tallied scopes expected m n :=
  have ⟨r,r',hr,hr',ht,_⟩ := h
  ⟨r,r',hr,hr',ht⟩

/-- An operand, which is evaluated by `value` and examined by `operand`. -/
def Operand.Tallied (scopes : ScopeTree) (operand : Operand) (value : Option Ty → Check Value) : Prop :=
  ∀ expected, TalliedAs scopes expected (value expected) (operand.value expected)

lemma Tallies.isScalar {r : Except Stop Value} {t : Ty} (h : Tallies expected r (.ok t)) : t.isScalar = true := by
  cases h with
  | value v => exact v.isScalar_type
  | arithmetic _ hscalar => exact hscalar t rfl
  | misfit hscalar => exact hscalar

/-- The evaluator goes on with a value, and the rules with a type. Where the rules alone go on, they find no type, or one that is
not expected unless the first one is. -/
theorem Tallied.bind {first : Option Ty} {m : Check Value} {n : Check Ty} {f : Value → Check Value} {g : Ty → Check Ty}
    (h : TalliedAs scopes first m n) (hf : ∀ v, Admitted first v.type → Tallied scopes expected (f v) (g v.type))
    (hg : ∀ t, t.isScalar = true → ∃ r, Answers scopes (g t) r ∧
      ∀ u, r = .ok u → u.isScalar = true ∧ (Admitted expected u → Admitted first t)) :
    Tallied scopes expected (m >>= f) (n >>= g) := by
  obtain ⟨r,r',hr,hr',ht,hadmitted⟩ := h
  cases ht with
  | value v =>
    obtain ⟨a,b,ha,hb,hab⟩ := hf v (hadmitted v rfl)
    exact ⟨a,b,.bind hr ha,.bind hr' hb,hab⟩
  | arithmetic he hscalar =>
    cases r' with
    | error stop => exact ⟨_,_,.stop hr _,.stop hr' _,.neither _ _⟩
    | ok t =>
      obtain ⟨b,hb,hu⟩ := hg t (hscalar t rfl)
      exact ⟨_,_,.stop hr _,.bind hr' hb,.arithmetic he fun u h => (hu u h).1⟩
  | @misfit _ t hscalar hmisfit =>
    obtain ⟨b,hb,hu⟩ := hg t hscalar
    cases b with
    | error stop => exact ⟨_,_,.stop hr _,.bind hr' hb,.neither _ _⟩
    | ok u => exact ⟨_,_,.stop hr _,.bind hr' hb,.misfit (hu u rfl).1 fun h => hmisfit ((hu u rfl).2 h)⟩
  | neither => exact ⟨_,_,.stop hr _,.stop hr' _,.neither _ _⟩

/-! ### The rules -/

lemma tallied_literal (scopes : ScopeTree) (text : String) (negative : Bool) (expected : Option Ty) (span : Span)
    {m : Value → Check Value} {n : Value → Check Ty} (hm : ∀ v, Answers scopes (m v) (.ok v))
    (hn : ∀ v, Answers scopes (n v) (.ok v.type)) : Tallied scopes expected (literalOfType text negative expected span >>= m)
      (literalOfType text negative expected span >>= n) := by
  obtain ⟨r,hr⟩ := Answers.literalOfType scopes text negative expected span
  match r, hr with
  | .ok v, hr => exact ⟨_,_,.bind hr (hm v),.bind hr (hn v),.value v⟩
  | .error stop, hr => exact ⟨_,_,.stop hr _,.stop hr _,.neither stop stop⟩

lemma tallied_name {name : String} (id : NodeId) (span : Span) (expected : Option Ty)
    (h : (ExprForm.name name).Evaluable scopes) :
    Tallied scopes expected (constantName constantValue scopes.current id name span) (readName id name span) := by
  obtain ⟨b,x,t,v,hnearest,hx,hreferent⟩ := h
  have hvalue := Answers.constantValue hx hreferent
  have hcurrent : Answers scopes (currentScope : Check ScopeId) (.ok scopes.current) := by
    intro s hs
    rw [← hs]
    exact ⟨rfl,rfl⟩
  refine ⟨.ok v,.ok v.type,?_,?_,.value v⟩
  · refine .bind (.findFrom hnearest) (.bind (.referentOf hx) ?_)
    rw [hreferent]
    exact hvalue
  · refine .bind (.bind hcurrent (.findFrom hnearest)) (.bind (.referentOf hx) ?_)
    rw [hreferent]
    exact .bind hvalue (.pure v.type)

/-! #### Unary operators -/

def negatedType (operand : Operand) (t : Ty) : Check Ty :=
  match t with
  | .int i => if i.signed then Pure.pure t else negationValue.notSigned operand t
  | .error => Pure.pure t
  | _ => negationValue.notSigned operand t

lemma answers_negatedType (scopes : ScopeTree) (operand : Operand) {t : Ty} (ht : t.isScalar = true) :
    ∃ r, Answers scopes (negatedType operand t) r ∧ ∀ u, r = .ok u → u = t := by
  have hstop : ∀ stop u, (Except.error stop : Except Stop Ty) = .ok u → u = t := fun _ _ h => by cases h
  cases t <;> cases ht
  case int i =>
    rw [negatedType]
    by_cases hsigned : i.signed = true
    · rw [if_pos hsigned]
      exact ⟨_,.pure _,fun u hu => by cases hu; rfl⟩
    · rw [if_neg hsigned]
      exact ⟨_,.mismatch _ _ _,hstop _⟩
  case bool => exact ⟨_,.mismatch _ _ _,hstop _⟩
  case char => exact ⟨_,.mismatch _ _ _,hstop _⟩

/-- The negation of a value is in range, or it overflows, or its operand is no signed integer. -/
theorem tallied_negateValue (scopes : ScopeTree) (operand : Operand) (v : Value) (operandSpan span : Span) (expected : Option Ty) :
    Tallied scopes expected (negateValue v operandSpan span) (negatedType operand v.type) := by
  cases v with
  | bool b | char c => exact ⟨_,_,.mismatch _ _ _,.mismatch _ _ _,.neither _ _⟩
  | int n i =>
    by_cases hsigned : i.signed = true
    · have htype : Answers scopes (negatedType operand (.int i)) (.ok (.int i)) := by
        rw [negatedType, if_pos hsigned]
        exact .pure _
      by_cases hcontains : i.contains (-n) = true
      · refine ⟨.ok (.int (-n) i),_,?_,htype,.value _⟩
        rw [negateValue, if_pos hsigned, if_pos hcontains]
        exact .pure _
      · refine ⟨.error (.error ⟨.arithmeticOverflow i.name,span⟩),_,?_,htype,?_⟩
        · rw [negateValue, if_pos hsigned, if_neg hcontains]
          exact .throw _
        · exact .arithmetic (.inl ⟨_,rfl⟩) fun t ht => by cases ht; rfl
    · refine ⟨.error (.error ⟨.typeMismatch "signed integer" (Ty.int i).display,operandSpan⟩),
        .error (.error ⟨.typeMismatch "signed integer" (Ty.int i).display,operand.expr.span⟩),?_,?_,.neither _ _⟩
      · rw [negateValue, if_neg hsigned]
        exact .mismatch _ _ _
      · rw [Value.type, negatedType, if_neg hsigned]
        exact .mismatch _ _ _

section Unary

variable {operand : Operand} {value : Option Ty → Check Value}

/-- A negation. A negated literal is one literal for both. -/
theorem tallied_negation (h : operand.Tallied scopes value) (span : Span) (expected : Option Ty) :
    Tallied scopes expected (constantNegation operand.expr value span expected) (negationValue operand span expected) := by
  unfold constantNegation negationValue
  cases operand.expr.literal? with
  | some text =>
    refine tallied_literal scopes text true expected span (fun v => ?_) fun v => ?_
    · exact .recordType (.pure v)
    · exact .recordType (.pure v.type)
  | none =>
    change Tallied scopes expected (value expected >>= fun v => negateValue v operand.expr.span span)
      (operand.value expected >>= negatedType operand)
    refine .bind (h expected) (fun v _ => tallied_negateValue scopes operand v _ span expected) fun t ht => ?_
    obtain ⟨r,hr,htype⟩ := answers_negatedType scopes operand ht
    exact ⟨r,hr,fun u hu => by obtain rfl := htype u hu; exact ⟨ht,id⟩⟩

/-- The evaluator wants a truth value, the rules want something that fits where one is expected. -/
theorem tallied_complement (h : operand.Tallied scopes value) (expected : Option Ty) :
    Tallied scopes expected (constantComplement value) (complementValue operand) := by
  unfold complementValue Operand.against
  rw [bind_assoc]
  refine .bind (h (some .bool)) (fun v hv => ?_) fun t ht => ?_
  · obtain ⟨b,rfl⟩ : ∃ b, v = .bool b := by
      have := hv .bool rfl
      cases v <;> simp_all [Value.type]
    exact ⟨_,_,.pure (Value.bool !b),.pure Ty.bool,.value (.bool !b)⟩
  · by_cases hfit : (Ty.fit t .bool).ok = true
    · rw [if_pos hfit]
      exact ⟨_,.pure Ty.bool,fun u hu => by cases hu; exact ⟨rfl,fun _ => (Ty.ok_fit_iff ht).1 hfit⟩⟩
    · rw [if_neg hfit]
      exact ⟨_,.stop (.mismatch _ _ _) _,fun _ h => by cases h⟩

end Unary

/-! #### Binary operators -/

/-- Two operands, the second of which is expected to have the type of the first. The rules accept operands of one type only. -/
theorem tallied_pair {first : Option Ty} {m : Check Value} {n : Check Ty} {m' : Ty → Check Value} {n' : Ty → Check Ty}
    {f : Value → Value → Check Value} {g : Ty → Ty → Check Ty} (h : TalliedAs scopes first m n)
    (h' : ∀ t, TalliedAs scopes (some t) (m' t) (n' t))
    (hf : ∀ v w, w.type = v.type → Tallied scopes expected (f v w) (g v.type w.type))
    (hg : ∀ t u, t.isScalar = true → u.isScalar = true → ∃ r, Answers scopes (g t u) r ∧
      ∀ x, r = .ok x → x.isScalar = true ∧ u = t ∧ (Admitted expected x → Admitted first t)) :
    Tallied scopes expected (m >>= fun v => m' v.type >>= f v) (n >>= fun t => n' t >>= g t) := by
  refine .bind h (fun v _ => .bind (h' v.type) (fun w hw => hf v w ?_) fun u hu => ?_) fun t ht => ?_
  · exact (hw v.type rfl).resolve_left (Ty.ne_error_of_isScalar v.isScalar_type)
  · obtain ⟨r,hr,hx⟩ := hg v.type u v.isScalar_type hu
    exact ⟨r,hr,fun x h => ⟨(hx x h).1,fun _ T hT => by cases hT; exact .inr (hx x h).2.1⟩⟩
  · obtain ⟨r,r',hr,hr',ht',-⟩ := h' t
    cases r' with
    | error stop => exact ⟨_,.stop hr' _,fun _ h => by cases h⟩
    | ok u =>
      obtain ⟨r,hr,hx⟩ := hg t u ht ht'.isScalar
      exact ⟨r,.bind hr' hr,fun x h => ⟨(hx x h).1,(hx x h).2.2⟩⟩

section Binary

variable {l r : Operand} {leftValue rightValue : Option Ty → Check Value} {op : BinaryOp} {t : Ty}

lemma Value.binary_cases {v w : Value} (htype : w.type = v.type) (hop : op.accepts v.type = true) :
    (∃ u, v.binary op w = .ok u ∧ u.type = if op.isArithmetic then v.type else .bool) ∨
      ∃ cause, v.binary op w = .error cause ∧ cause.IsArithmetic := by
  have hrange : ∀ n i, (∃ u, inRange (word? n) i = .ok u ∧ u.type = .int i) ∨
      ∃ cause, inRange (word? n) i = .error cause ∧ cause.IsArithmetic := by
    intro n i
    rw [inRange_word?]
    split
    · exact .inl ⟨_,rfl,rfl⟩
    · exact .inr ⟨_,rfl,.inl ⟨_,rfl⟩⟩
  match v, w, htype with
  | .int a i, .int b _, rfl =>
    cases op with
    | add | sub | mul => exact hrange _ i
    | div | rem =>
      simp only [binary, binaryInt]
      by_cases hb : b = 0
      · rw [if_pos hb]
        exact .inr ⟨_,rfl,.inr rfl⟩
      · rw [if_neg hb]
        exact hrange _ i
    | and | or => cases hop
    | _ => exact .inl ⟨_,rfl,rfl⟩
  | .bool a, .bool b, _ =>
    have hop' : op.isArithmetic = false := by cases op <;> first | rfl | cases hop
    rw [hop']
    exact .inl ⟨_,rfl,rfl⟩
  | .char a, .char b, _ =>
    have hop' : op.isArithmetic = false := by cases op <;> first | rfl | cases hop
    rw [hop']
    exact .inl ⟨_,rfl,rfl⟩

def operationType (op : BinaryOp) (l r : Operand) (p : Ty × Ty) : Check Ty :=
  if !(op.accepts p.1 || p.1 == .error) then
    Check.mismatch op.wanted p.1.display l.expr.span
  else if Ty.fit p.2 p.1 ≠ .equal then
    Check.mismatch p.1.display p.2.display r.expr.span
  else
    return if op.isArithmetic then p.1 else .bool

lemma answers_operationType (scopes : ScopeTree) (op : BinaryOp) {u : Ty} (ht : t.isScalar = true) (hu : u.isScalar = true) :
    Answers scopes (operationType op l r (t, u)) (.ok (if op.isArithmetic then t else .bool)) ∧ op.accepts t = true ∧ u = t ∨
      (∃ stop, Answers scopes (operationType op l r (t, u)) (.error stop)) ∧ ¬(op.accepts t = true ∧ u = t) := by
  have hne : (t == .error) = false := by simpa using Ty.ne_error_of_isScalar ht
  unfold operationType
  by_cases haccepts : op.accepts t = true
  · rw [if_neg (by simp [haccepts])]
    by_cases heq : u = t
    · rw [if_neg (by simp [(Ty.fit_eq_equal_iff hu ht).2 heq])]
      exact .inl ⟨.pure _,haccepts,heq⟩
    · rw [if_pos (by simp [Ty.fit_eq_equal_iff hu ht, heq])]
      exact .inr ⟨⟨_,.mismatch _ _ _⟩,by simp [heq]⟩
  · rw [if_pos (by simp [haccepts, hne])]
    exact .inr ⟨⟨_,.mismatch _ _ _⟩,by simp [haccepts]⟩

/-- The operands that only the rules accept do not have the type that is expected of the operation. -/
theorem not_admitted_operation (haccepts : op.accepts t = true)
    (h : ¬ Admitted (op.firstExpected expected) t) : ¬ Admitted expected (if op.isArithmetic then t else .bool) := by
  unfold BinaryOp.firstExpected at h
  by_cases harith : op.isArithmetic = true
  · rwa [if_pos harith] at h ⊢
  · rw [if_neg harith] at h
    by_cases hlogical : op.isLogical = true
    · -- A logical operator is defined on `bool` alone, which is the type it expects.
      rw [if_pos hlogical] at h
      have : t = .bool := by cases op <;> cases hlogical <;> cases t <;> first | rfl | cases haccepts
      exact absurd (fun T hT => by cases hT; exact .inr this) h
    · rw [if_neg hlogical] at h
      exact absurd (fun T hT => by cases hT) h

lemma Ty.isScalar_operation (op : BinaryOp) (ht : t.isScalar = true) :
    (if op.isArithmetic then t else .bool).isScalar = true := by
  split
  · exact ht
  · rfl

/-- The evaluator has no value of operands of one type if the operator is not defined on them, or the result is out of range. -/
theorem tallied_operation {v w : Value} (h : w.type = v.type) (span : Span) (expected : Option Ty) :
    Tallied scopes expected (if op.accepts v.type then Check.ofExcept ((v.binary op w).mapError fun cause => ⟨cause,span⟩)
        else Check.mismatch (if op.isLogical then "bool" else "integer") v.type.display l.expr.span)
      (operationType op l r (v.type, w.type)) := by
  obtain ⟨htyped,haccepts,-⟩ | ⟨⟨stop,hstop⟩,hnot⟩ :=
    answers_operationType scopes (l := l) (r := r) op v.isScalar_type w.isScalar_type
  · rw [if_pos haccepts]
    obtain ⟨u,hu,hutype⟩ | ⟨cause,hcause,harith⟩ := Value.binary_cases h haccepts
    · rw [hu]
      exact ⟨_,_,.pure u,hutype ▸ htyped,.value u⟩
    · rw [hcause]
      refine ⟨_,_,.throw _,htyped,.arithmetic harith fun t ht => ?_⟩
      cases ht
      exact Ty.isScalar_operation op v.isScalar_type
  · rw [if_neg fun haccepts => hnot ⟨haccepts,h⟩]
    exact ⟨_,_,.mismatch _ _ _,hstop,.neither _ _⟩

lemma tallied_binary (hl : l.Tallied scopes leftValue) (hr : r.Tallied scopes rightValue) (op : BinaryOp)
    (span : Span) (expected : Option Ty) :
    Tallied scopes expected (constantBinary op l.expr r.expr leftValue rightValue span expected)
      (binaryValue op l r expected) := by
  have htypes : binaryValue op l r expected = operandTypes op l r expected >>= operationType op l r := rfl
  have hoperation (t u : Ty) (ht : t.isScalar = true) (hu : u.isScalar = true) :
      ∃ a, Answers scopes (operationType op l r (t, u)) a ∧ ∀ x, a = .ok x → x.isScalar = true ∧ u = t ∧
        (Admitted expected x → Admitted (op.firstExpected expected) t) := by
    obtain ⟨htyped,haccepts,heq⟩ | ⟨⟨stop,hstop⟩,-⟩ := answers_operationType scopes (l := l) (r := r) op ht hu
    · refine ⟨_,htyped,fun x hx => ?_⟩
      cases hx
      exact ⟨Ty.isScalar_operation op ht,heq,fun h => by_contra fun hnot => not_admitted_operation haccepts hnot h⟩
    · exact ⟨_,hstop,fun _ h => by cases h⟩
  rw [htypes]
  unfold constantBinary constantOperands operandTypes
  by_cases horder : (l.expr.isContextual && !r.expr.isContextual) = true
  · simp only [if_pos horder, bind_assoc, pure_bind]
    refine tallied_pair (f := fun w v => _) (hr _) (fun t => hl (some t)) (fun w v h => tallied_operation h.symm span expected)
      fun u t hu ht => ?_
    obtain ⟨a,ha,hx⟩ := hoperation t u ht hu
    refine ⟨a,ha,fun x h => ?_⟩
    obtain ⟨hscalar,rfl,hadmitted⟩ := hx x h
    exact ⟨hscalar,rfl,hadmitted⟩
  · simp only [if_neg horder, bind_assoc, pure_bind]
    exact tallied_pair (hl _) (fun t => hr (some t)) (fun v w h => tallied_operation h span expected) hoperation

end Binary

/-! ### All expressions -/

/-- The value of an expression and its type by the rules tally. -/
theorem Expr.tallied (e : Expr) (h : e.Evaluable scopes) :
    e.operand.Tallied scopes fun expected => e.constant constantValue scopes.current expected := by
  obtain ⟨id,span,form⟩ := e
  refine fun expected => Tallied.expr ?_ id span
  cases form with
  | int text =>
    have h := tallied_literal scopes text false expected span .pure fun v => .pure v.type
    rwa [bind_pure] at h
  | bool b => exact ⟨_,_,.pure (Value.bool b),.pure Ty.bool,.value (.bool b)⟩
  | char c => exact ⟨_,_,.pure (Value.char c),.pure Ty.char,.value (.char c)⟩
  | name name => exact tallied_name id span expected h
  | paren e => exact (e.tallied h expected).tallied
  | unary op e =>
    have he := e.tallied h
    cases op with
    | neg =>
      rw [ExprForm.constant, ExprForm.value]
      simpa only [Expr.expr_operand] using tallied_negation he span expected
    | not => exact tallied_complement he expected
  | binary op l r =>
    rw [ExprForm.constant, ExprForm.value]
    simpa only [Expr.expr_operand] using tallied_binary (l.tallied h.1) (r.tallied h.2) op span expected
  | _ => cases h

/-- The examination of an operand by the rules, which has to fit the expected type if there is one. -/
def Operand.checked (operand : Operand) : Option Ty → Check Ty
  | none => operand.value none
  | some T => operand.against T

lemma answers_checked {operand : Operand} {expected : Option Ty} {t : Ty} (ht : t.isScalar = true)
    (h : Answers scopes (operand.value expected) (.ok t)) :
    Answers scopes (operand.checked expected) (.ok t) ∧ Admitted expected t ∨
      (∃ stop, Answers scopes (operand.checked expected) (.error stop)) ∧ ¬ Admitted expected t := by
  cases expected with
  | none => exact .inl ⟨h,fun T hT => by cases hT⟩
  | some T =>
    rw [← Ty.ok_fit_iff ht]
    by_cases hfit : (Ty.fit t T).ok = true
    · refine .inl ⟨.bind h ?_,hfit⟩
      rw [if_pos hfit]
      exact .pure t
    · refine .inr ⟨⟨.error ⟨.typeMismatch T.display t.display,operand.expr.span⟩,.bind h ?_⟩,hfit⟩
      rw [if_neg hfit]
      exact .mismatch _ _ _

lemma answers_checked_error {operand : Operand} {expected : Option Ty} {stop : Stop}
    (h : Answers scopes (operand.value expected) (.error stop)) : Answers scopes (operand.checked expected) (.error stop) := by
  cases expected with
  | none => exact h
  | some T => exact .stop h _

/-- On an expression over literals and evaluated constants, the evaluator gives a value only if the rules give its type,
and the rules give a type only if the evaluator gives a value of it, unless the value is out of range. -/
theorem Expr.constant_tallies_checked (s : State) (e : Expr) (he : e.Evaluable s.scopes) (expected : Option Ty) :
    (∀ v, ((e.constant constantValue s.scopes.current expected).run s).1 = .ok v →
      ((e.operand.value expected).run s).1 = .ok v.type ∧ ((e.operand.checked expected).run s).1 = .ok v.type) ∧
    ∀ t, ((e.operand.checked expected).run s).1 = .ok t →
      (∃ v, ((e.constant constantValue s.scopes.current expected).run s).1 = .ok v ∧ v.type = t) ∨
        ∃ error, ((e.constant constantValue s.scopes.current expected).run s).1 = .error (.error error) ∧
          error.cause.IsArithmetic := by
  obtain ⟨r,r',hr,hr',ht,hadmitted⟩ := e.tallied he expected
  rw [(hr s rfl).1, (hr' s rfl).1]
  cases ht with
  | value v =>
    obtain ⟨hchecked,-⟩ | ⟨-,hnot⟩ := answers_checked v.isScalar_type hr'
    · rw [(hchecked s rfl).1]
      refine ⟨fun w hw => ?_,fun t ht => .inl ⟨v,rfl,Except.ok.inj ht⟩⟩
      cases hw
      exact ⟨rfl,rfl⟩
    · exact absurd (hadmitted v rfl) hnot
  | arithmetic harith => exact ⟨nofun,fun t _ => .inr ⟨_,rfl,harith⟩⟩
  | misfit hscalar hmisfit =>
    obtain ⟨-,hfits⟩ | ⟨⟨stop,hstop⟩,-⟩ := answers_checked hscalar hr'
    · exact absurd hfits hmisfit
    · rw [(hstop s rfl).1]
      exact ⟨nofun,nofun⟩
  | neither stop stop' =>
    rw [(answers_checked_error hr' s rfl).1]
    exact ⟨nofun,nofun⟩

/-- The product `2 * k` of a literal and a constant of type `i8`, which gives the literal its type. It has a value for
`k = 40` and none for `k = 100`. -/
theorem Expr.constant_tallies_checked_product :
    let span : Span := ⟨0,0⟩
    let state (k : Int) : State := { State.initial with
      scopes := ScopeTree.initial.bind ⟨"k",0,span,.const (some (.int .i8)) (.done (.int k .i8))⟩ }
    let product : Expr := ⟨2,span,.binary .mul ⟨0,span,.int "2"⟩ ⟨1,span,.name "k"⟩⟩
    product.Evaluable (state 40).scopes ∧ product.Evaluable (state 100).scopes ∧
      ((product.operand.checked (some (.int .i8))).run (state 40)).1 = .ok (.int .i8) ∧
        ∃ error, ((product.constant constantValue 0 (some (.int .i8))).run (state 100)).1 = .error (.error error) ∧
          error.cause.IsArithmetic := by
  intro span state product
  have hevaluable : ∀ k, (state k).scopes.nearest? 0 "k" = some 0 → product.Evaluable (state k).scopes := by
    intro k hk
    simp only [product, Expr.Evaluable, ExprForm.Evaluable, true_and]
    exact ⟨0,_,_,_,hk,rfl,rfl⟩
  have h40 := hevaluable 40 (by decide +kernel)
  have h100 := hevaluable 100 (by decide +kernel)
  have hvalue : ((product.constant constantValue 0 (some (.int .i8))).run (state 40)).1 = .ok (.int 80 .i8) := by
    decide +kernel
  have htyped : ((product.operand.checked (some (.int .i8))).run (state 100)).1 = .ok (.int .i8) := by
    decide +kernel
  have hstop : ((product.constant constantValue 0 (some (.int .i8))).run (state 100)).1 =
      .error (.error ⟨.arithmeticOverflow "i8",span⟩) := by
    decide +kernel
  refine ⟨h40,h100,?_,?_⟩
  · exact ((product.constant_tallies_checked (state 40) h40 (some (.int .i8))).1 _ hvalue).2
  · obtain ⟨v,hv,-⟩ | herror := (product.constant_tallies_checked (state 100) h100 (some (.int .i8))).2 _ htyped
    · cases hstop.symm.trans hv
    · exact herror

end Opal
