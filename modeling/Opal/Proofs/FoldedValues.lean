import Opal.Proofs.ConstantRecursion

/-!
# Folded values

Constants are folded in 64-bit words, and the result is compared with the range of the type. This comes to exact arithmetic with
a range check at the end, so every value is a value of its type.
-/

namespace Opal

open Coupling (InStep)

lemma Exact.div_rem {a b q r : Int} (hq : arithmetic .div a b = some q) (hr : arithmetic .rem a b = some r) :
    q * b + r = a ∧ r.natAbs < b.natAbs ∧ (0 ≤ a → 0 ≤ r) ∧ (a ≤ 0 → r ≤ 0) := by
  by_cases hb : b = 0
  · simp [arithmetic, hb] at hq
  simp only [arithmetic, if_neg hb, Option.some.injEq] at hq hr
  subst hq hr
  refine ⟨Int.tdiv_mul_add_tmod a b,?_,Int.tmod_nonneg b,fun ha => ?_⟩
  · rw [Int.natAbs_tmod]
    exact Nat.mod_lt _ (Int.natAbs_pos.2 hb)
  · have hneg := Int.tmod_nonneg b (a := -a) (by omega)
    rw [Int.neg_tmod] at hneg
    omega

namespace Value

lemma binary_int {op : BinaryOp} (hop : op.isArithmetic = true) (i : IntTy) (a b : Int) : binary op (.int a i) (.int b i) =
      match Exact.arithmetic op a b with
      | none => .error .divisionByZero
      | some z => if i.contains z then .ok (.int z i) else .error (.arithmeticOverflow i.name) := by
  cases op with
  | add | sub | mul => exact inRange_word? _ i
  | div | rem =>
    simp only [binary, binaryInt, Exact.arithmetic]
    split
    · rfl
    · exact inRange_word? _ i
  | _ => cases hop

lemma isInRange_of_binary {op : BinaryOp} {l r v : Value} (h : l.binary op r = .ok v) : v.isInRange = true := by
  cases l with
  | int a i =>
    cases r with
    | int b j => exact (binaryInt_exact h).2.1
    | bool | char => cases h
  | bool a =>
    cases r with
    | bool b => exact Except.ok.inj h ▸ rfl
    | int | char => cases h
  | char c =>
    cases r with
    | char d => exact Except.ok.inj h ▸ rfl
    | int | bool => cases h

end Value

/-! ## Values of expressions -/

/-- Whatever state the computation is run from, its results are as `P` says. -/
def Check.Gives {α : Type} (m : Check α) (P : α → Prop) : Prop :=
  ∀ s a, (m.run s).1 = .ok a → P a

namespace Check.Gives

variable {α β : Type} {P : α → Prop} {Q : β → Prop}

lemma pure {a : α} (h : P a) : Gives (Pure.pure a) P :=
  fun _ _ ha => Except.ok.inj ha ▸ h

lemma throw (e : Stop) : Gives (MonadExcept.throw e : Check α) P :=
  nofun

lemma bind {m : Check α} {f : α → Check β} (hm : m.Gives P) (hf : ∀ a, P a → (f a).Gives Q) : (m >>= f).Gives Q := by
  intro s b hb
  have hgives := hm s
  rw [Check.run_bind] at hb
  generalize m.run s = out at hb hgives
  obtain ⟨e | a,s1⟩ := out
  · cases hb
  · exact hf a (hgives a rfl) s1 b hb

lemma after {m : Check α} {f : α → Check β} (hf : ∀ a, (f a).Gives Q) : (m >>= f).Gives Q :=
  bind (P := fun _ => True) (fun _ _ _ => trivial) fun a _ => hf a

lemma ite {c : Prop} [Decidable c] {m n : Check α} (h : c → m.Gives P) (h' : ¬ c → n.Gives P) :
    (if c then m else n).Gives P := by
  split
  · exact h ‹_›
  · exact h' ‹_›

end Check.Gives

open Check (Gives)

lemma Coupling.InStep.withResult {K : Coupling} {w : K.World} {α α' : Type} {m : Check α} {m' : Check α'}
    {P : K.World → α → α' → Prop} {Q : α → Prop} (h : K.InStep w m m' P) (hQ : m.Gives Q) :
    K.InStep w m m' fun w' a a' => P w' a a' ∧ Q a := by
  intro s s' hrel
  have hends := h s s' hrel
  have hgives := hQ s
  generalize m.run s = out, m'.run s' = out' at hends hgives
  cases hends with
  | result hle hrel' ha => exact .result hle hrel' ⟨ha,hgives _ rfl⟩
  | stopped hstopped => exact .stopped hstopped
  | alone hlax => exact .alone hlax

lemma literalOfType_gives (text : String) (negative : Bool) (span : Span) (expected : Option Ty) :
    (literalOfType text negative expected span).Gives (·.isInRange = true) := by
  unfold literalOfType
  cases expected with
  | none => exact .throw _
  | some t =>
    cases t with
    | int i =>
      cases literalValue? text with
      | none => exact .throw _
      | some n => exact .ite (fun h => .pure h) fun _ => .throw _
    | _ => exact .throw _

lemma negateValue_gives (v : Value) (operandSpan span : Span) :
    (negateValue v operandSpan span).Gives (·.isInRange = true) := by
  cases v with
  | int n i => exact .ite (fun _ => .ite (fun h => .pure h) fun _ => .throw _) fun _ => .throw _
  | bool | char => exact .throw _

/-- An expression other than a name has a value in the range of its type, whatever it is made of. -/
theorem ExprForm.constant_gives {constants : Constants} {c : ScopeId} (id : NodeId) (span : Span)
    (expected : Option Ty) {form : ExprForm} (hparen : ∀ e, form ≠ .paren e) (hname : ∀ name, form ≠ .name name) :
    (form.constant constants c id span expected).Gives (·.isInRange = true) := by
  cases form with
  | int text => exact literalOfType_gives text false span expected
  | bool | char => exact .pure rfl
  | paren e => exact absurd rfl (hparen e)
  | name name => exact absurd rfl (hname name)
  | unary op e =>
    cases op with
    | neg =>
      rw [ExprForm.constant, constantNegation]
      cases e.literal? with
      | some text => exact .bind (literalOfType_gives text true span expected) fun v hv => .after fun _ => .pure hv
      | none => exact .after fun v => negateValue_gives v _ _
    | not =>
      rw [ExprForm.constant, constantComplement]
      refine .after fun v => ?_
      cases v with
      | bool b => exact .pure rfl
      | int | char => exact .throw _
  | binary op l r =>
    rw [ExprForm.constant, constantBinary]
    refine .after fun v => .ite (fun _ => ?_) fun _ => .throw _
    cases h : v.1.binary op v.2 with
    | ok u => exact .pure (Value.isInRange_of_binary h)
    | error cause => exact .throw _
  | _ => exact .throw _

/-! ## Constants -/

/-- The values of constants are in the ranges of their types. -/
def State.InRange (s : State) : Prop :=
  ∀ b type v, s.referent? b = some (.const type (.done v)) → v.isInRange = true

lemma State.unnoted_inRange : Unnoted State.InRange := by
  intro s e he hs b type v hr
  refine hs b type v ?_
  rwa [Findings.referent?, (s.noted_step he).scopes] at hr

/-- The computation gives a value in the range of its type, and keeps those of constants there. -/
def Ranged (m : Check Value) : Prop :=
  (invariantly State.unnoted_inRange).InStep () m m fun _ v v' => v = v' ∧ v.isInRange = true

section

variable {constants : Constants} (hconst : Constants.AgreeOn State.InRange (·.isInRange = true) constants constants) (c : ScopeId)

lemma Ranged.expr {id : NodeId} {span : Span} {form : ExprForm} {expected : Option Ty}
    (h : Ranged (form.constant constants c id span expected)) :
    Ranged ((Expr.mk id span form).constant constants c expected) := by
  let K := invariantly State.unnoted_inRange
  refine .perform (K.begun id fun _ _ => trivial) fun _ _ => h.bind ?_
  rintro _ v _ - ⟨rfl,hv⟩
  refine (requireType_inStep (K := K) v expected span).bind fun _ _ _ _ _ => ?_
  exact .perform (K.typed id trivial) fun _ _ => .pure ⟨rfl,hv⟩

include hconst

lemma Expr.constant_ranged (e : Expr) (expected : Option Ty) : Ranged (e.constant constants c expected) := by
  obtain ⟨id,span,form⟩ := e
  cases form with
  | paren e => exact .expr c (e.constant_ranged expected)
  | name name => exact .expr c (hconst.constantName () c id name span)
  | _ =>
    refine (Expr.constant_inStep (w := ()) (hconst.names _) _ ⟨[],rfl,fun _ _ => trivial⟩ () trivial expected
      fun _ _ => trivial).withResult (.after fun _ => ?_)
    exact .bind (ExprForm.constant_gives id span expected (by simp) (by simp)) fun v hv => .after fun _ => .after fun _ => .pure hv

lemma evaluateDecl_ranged (d : ConstDecl) : Ranged (evaluateDecl constants c d) := by
  refine (requiredType_inStep (hconst.names _) d.type ⟨[],rfl,fun _ _ => trivial⟩).bind ?_
  rintro _ expected _ - ⟨rfl,-⟩
  exact d.value.constant_ranged hconst c expected

lemma evaluateWith_inRange :
    Constants.AgreeOn State.InRange (·.isInRange = true) (evaluateWith constants) (evaluateWith constants) := by
  intro b s hs
  refine ⟨rfl,?_⟩
  have hmarked {s : State} (hs : s.InRange) {f : Referent → Referent}
      (hf : ∀ r type v, f r = .const type (.done v) → v.isInRange = true) : (s.marked b f).InRange := by
    intro b' type v hr
    rw [referent?_marked] at hr
    split at hr
    · obtain ⟨r,-,hfr⟩ := Option.map_eq_some_iff.1 hr
      exact hf r type v hfr
    · exact hs b' type v hr
  rcases run_evaluateWith_cases s b with ⟨scope,d,-,-,hrun⟩ | ⟨r,hdone,hrun⟩
  · have hbegun : (s.begun b).InRange := hmarked hs fun r type v h => by
      cases r <;> cases h
    obtain ⟨-,hinv,hv⟩ := run_eq_of_ends (evaluateDecl_ranged hconst scope d _ _ ⟨rfl,hbegun⟩)
    rw [hrun, run_evaluateFresh]
    generalize (evaluateDecl constants scope d).run (s.begun b) = out at hinv hv
    have hfailed {s : State} (hs : s.InRange) : (s.marked b fun r => (r.setConstType .error).setConstStage .failed).InRange :=
      hmarked hs fun r type v h => by cases r <;> cases h
    obtain ⟨(e | _) | v,s1⟩ := out
    · exact ⟨hfailed (s := s1.step (.reported e)) hinv,nofun⟩
    · exact ⟨hfailed (s := s1.step .dropped) hinv,nofun⟩
    · refine ⟨State.unnoted_inRange _ _ rfl (hmarked hinv fun r type u h => ?_),hv⟩
      cases r <;> cases h
      exact hv v rfl
  · rw [hrun]
    refine ⟨hs,fun v hv => ?_⟩
    obtain ⟨type,hr⟩ := hdone v hv
    exact hs b type v hr

end

lemma constantWithin_inRange : ∀ n, Constants.AgreeOn State.InRange (·.isInRange = true) (constantWithin n) (constantWithin n)
  | 0 => fun _ _ hs => ⟨rfl,hs,nofun⟩
  | n + 1 => evaluateWith_inRange (constantWithin_inRange n)

lemma constantValue_inRange : Constants.AgreeOn State.InRange (·.isInRange = true) constantValue constantValue := by
  intro b s hs
  rw [run_constantValue]
  exact constantWithin_inRange _ b s hs

/-- Constants are folded by exact arithmetic with a range check: nothing is divided by zero, and any other exact
result is the value if it is in the range of the type, and an overflow if it is not. The same holds of negation. So
in every state of a check the values of constants are in the ranges of their types, and every expression that
is evaluated from there has a value in the range of its type. -/
theorem Module.folding_exact {source : String} {m : Module} (h : Module.parse source = .ok m) :
    (∀ (op : BinaryOp) (i : IntTy) (a b : Int), op.isArithmetic = true → i.contains a = true → i.contains b = true →
      (Exact.arithmetic op a b = none ↔ (op = .div ∨ op = .rem) ∧ b = 0) ∧
      Value.binary op (.int a i) (.int b i) =
        match Exact.arithmetic op a b with
        | none => .error .divisionByZero
        | some z => if i.contains z then .ok (.int z i) else .error (.arithmeticOverflow i.name)) ∧
    (∀ a b q r : Int, Exact.arithmetic .div a b = some q → Exact.arithmetic .rem a b = some r →
      q * b + r = a ∧ r.natAbs < b.natAbs ∧ (0 ≤ a → 0 ≤ r) ∧ (a ≤ 0 → r ≤ 0)) ∧
    (∀ (i : IntTy) (n : Int) (operandSpan span : Span), i.signed = true → i.contains n = true →
      negateValue (.int n i) operandSpan span =
        if i.contains (-n) then pure (.int (-n) i) else Check.fail (.arithmeticOverflow i.name) span) ∧
    ∀ s ∈ m.states, s.InRange ∧ (∀ (id : NodeId) v, s.valueOf[id]? = some v → v.isInRange = true) ∧
      ∀ (e : Expr) (scope : ScopeId) (expected : Option Ty), ((e.constant constantValue scope expected).run s).2.InRange ∧
          ∀ v, ((e.constant constantValue scope expected).run s).1 = .ok v → v.isInRange = true := by
  obtain ⟨hadvances,-⟩ := m.run_advances h
  have hfinal : m.final.InRange := by
    intro b type v hr
    obtain ⟨d,hd,-⟩ := hadvances.const_declared hr
    exact (hadvances.sound.stages b d type _ hd hr).2.evaluates.inRange
  refine ⟨fun op i a b hop _ _ => ⟨?_,Value.binary_int hop i a b⟩,fun a b q r => Exact.div_rem,
    fun i n _ _ hi _ => if_pos hi,fun s hs => ?_⟩
  · cases op <;> simp [Exact.arithmetic] <;> cases hop
  obtain ⟨journal,hjournal,rfl⟩ := List.mem_map.1 hs
  obtain ⟨hbefore,hafter⟩ := hadvances.steps.at_suffix ((List.mem_tails _ _).1 hjournal)
  have hs : (State.replay journal).InRange := fun b type v hr => hfinal b type v (hafter.referent?_done hr)
  refine ⟨hs,fun id v hv => ?_,fun e scope expected => ?_⟩
  · obtain ⟨b,-,hr⟩ := hbefore.valueOf hv
    exact hs b _ v hr
  · exact (run_eq_of_ends (e.constant_ranged constantValue_inRange scope expected _ _ ⟨rfl,hs⟩)).2

/-- The least value of a type by minus one, and a product that no word holds. -/
theorem Module.folding_exact_bounds : ∃ m, Module.parse "const a: i8 = -128; const b = a / -1;" = .ok m ∧
    m.check.codes = ["ArithmeticOverflow"] ∧
    Value.binary .div (.int (-128) .i8) (.int (-1) .i8) = .error (.arithmeticOverflow "i8") ∧
    Value.binary .mul (.int 4294967295 .u32) (.int 4294967295 .u32) = .error (.arithmeticOverflow "u32") ∧
      ∀ s ∈ m.states, s.InRange := by
  obtain ⟨m,hm,htest⟩ := Module.exists_of_test "const a: i8 = -128; const b = a / -1;"
    (fun m => m.check.codes == ["ArithmeticOverflow"]) (by decide +kernel)
  obtain ⟨hbinary,-,-,hstates⟩ := m.folding_exact hm
  exact ⟨m,hm,beq_iff_eq.1 htest,(hbinary .div .i8 (-128) (-1) rfl rfl rfl).2,
    (hbinary .mul .u32 4294967295 4294967295 rfl rfl rfl).2,fun s hs => (hstates s hs).1⟩

end Opal
