import Mathlib.Data.Int.Order.Basic
import Opal.Check.Constant
import Opal.Proofs.Coverage

/-!
# Exact values of constant expressions

What a constant expression stands for with unbounded integers. Division truncates toward zero, and both operands of a logical
operator count.
-/

namespace Opal

open List

variable {op : BinaryOp} {x : Expr} {i : IntTy} {text : String} {t : Ty} {v : Value} {f : Findings} {n : Int}
    {named named' : NodeId → Option Exact}

/-- What a constant expression stands for. -/
inductive Exact where
  | int (n : Int)
  | bool (b : Bool)
  | char (c : Char)
deriving DecidableEq, Repr

/-- Whether a comparison holds between two integers. -/
def BinaryOp.relates (op : BinaryOp) (a b : Int) : Option Bool :=
  match op with
  | .eq => some (decide (a = b))
  | .ne => some (decide (a ≠ b))
  | .lt => some (decide (a < b))
  | .le => some (decide (a ≤ b))
  | .gt => some (decide (b < a))
  | .ge => some (decide (b ≤ a))
  | _ => none

namespace Exact

def arithmetic (op : BinaryOp) (a b : Int) : Option Int :=
  match op with
  | .add => some (a + b)
  | .sub => some (a - b)
  | .mul => some (a * b)
  | .div => if b = 0 then none else some (a.tdiv b)
  | .rem => if b = 0 then none else some (a.tmod b)
  | _ => none

def logical (op : BinaryOp) (a b : Bool) : Option Bool :=
  match op with
  | .and => some (a && b)
  | .or => some (a || b)
  | .eq => some (decide (a = b))
  | .ne => some (decide (a ≠ b))
  | _ => none

def binary (op : BinaryOp) : Exact → Exact → Option Exact
  | int a, int b => ((arithmetic op a b).map int).or ((op.relates a b).map bool)
  | bool a, bool b => (logical op a b).map bool
  | char a, char b => (op.relates a.toNat b.toNat).map bool
  | _, _ => none

def unary : UnaryOp → Exact → Option Exact
  | .neg, int n => some (int (-n))
  | .not, bool b => some (bool (!b))
  | _, _ => none

end Exact

mutual

/-- What a constant expression stands for, where the names stand for `named`. -/
def Expr.exact (named : NodeId → Option Exact) : Expr → Option Exact
  | ⟨id,_,form⟩ => form.exact named id

def ExprForm.exact (named : NodeId → Option Exact) (id : NodeId) : ExprForm → Option Exact
  | .int text => (literalValue? text).map .int
  | .bool b => some (.bool b)
  | .char c => some (.char c)
  | .name _ => named id
  | .paren e => e.exact named
  | .unary op e => (e.exact named).bind (Exact.unary op)
  | .binary op l r => (l.exact named).bind fun a => (r.exact named).bind fun b => Exact.binary op a b
  | _ => none

end

mutual

/-- The expressions inside a constant expression that have a value of their own, itself included. -/
def Expr.evaluated : Expr → List Expr
  | ⟨id,span,form⟩ => ⟨id,span,form⟩ :: form.evaluated

def ExprForm.evaluated : ExprForm → List Expr
  | .paren e => e.evaluated
  | .unary .neg e => if e.literal?.isSome then [] else e.evaluated
  | .unary .not e => e.evaluated
  | .binary _ l r => l.evaluated ++ r.evaluated
  | _ => []

end

lemma Expr.evaluated_eq (e : Expr) : e.evaluated = e :: e.form.evaluated := by
  cases e; rw [Expr.evaluated]

mutual

lemma Expr.mem_nodes_of_mem_evaluated (e x : Expr) (h : x ∈ e.evaluated) : Node.expr x ∈ e.nodes := by
  obtain ⟨id,span,form⟩ := e
  rcases mem_cons.1 h with rfl | h
  · simp
  · exact mem_append_left _ (form.mem_nodes_of_mem_evaluated x h)

lemma ExprForm.mem_nodes_of_mem_evaluated (form : ExprForm) (x : Expr) (h : x ∈ form.evaluated) : Node.expr x ∈ form.nodes := by
  cases form with
  | paren e => exact e.mem_nodes_of_mem_evaluated x h
  | unary op e =>
    refine e.mem_nodes_of_mem_evaluated x ?_
    cases op with
    | not => exact h
    | neg =>
      rw [ExprForm.evaluated] at h
      split at h
      · cases h
      · exact h
  | binary _ l r =>
    rcases mem_append.1 h with h | h
    · exact mem_append_left _ (l.mem_nodes_of_mem_evaluated x h)
    · exact mem_append_right _ (r.mem_nodes_of_mem_evaluated x h)
  | _ => simp [ExprForm.evaluated] at h

end

lemma Expr.exact_mono (e : Expr) {x : Exact} (h : ∀ id ∈ e.ids, ∀ y, named id = some y → named' id = some y)
    (hx : e.exact named = some x) : e.exact named' = some x := by
  obtain ⟨id,span,form⟩ := e
  replace h (i) (hi : i ∈ form.nodes.map Node.id ∨ id = i) := h i (by simpa using hi)
  cases form with
  | int | bool | char => rwa [Expr.exact, ExprForm.exact] at hx ⊢
  | name => exact h id (.inr rfl) x hx
  | paren e => exact e.exact_mono (fun i hi => h i (.inl hi)) hx
  | unary op e =>
    rw [Expr.exact, ExprForm.exact] at hx ⊢
    obtain ⟨a,ha,hx⟩ := Option.bind_eq_some_iff.1 hx
    rw [e.exact_mono (fun i hi => h i (.inl hi)) ha]
    exact hx
  | binary op l r =>
    rw [Expr.exact, ExprForm.exact] at hx ⊢
    obtain ⟨a,ha,hx⟩ := Option.bind_eq_some_iff.1 hx
    obtain ⟨b,hb,hx⟩ := Option.bind_eq_some_iff.1 hx
    rw [l.exact_mono (fun i hi => h i (.inl (map_subset _ (subset_append_left ..) hi))) ha,
      r.exact_mono (fun i hi => h i (.inl (map_subset _ (subset_append_right ..) hi))) hb]
    exact hx
  | _ => cases hx

/-! ## Values and what they stand for -/

namespace Value

def exact : Value → Exact
  | int n _ => .int n
  | bool b => .bool b
  | char c => .char c

def isInRange : Value → Bool
  | int n i => i.contains n
  | _ => true

end Value

/-- What a binding stands for in a constant expression: the value of a constant that was evaluated. -/
def Referent.value? : Referent → Option Value
  | .const _ (.done v) => some v
  | _ => none

namespace Findings

/-- The value of the constant that the name at a node refers to. -/
def constantAt (f : Findings) (id : NodeId) : Option Value :=
  (f.referentAt id).bind Referent.value?

def exactAt (f : Findings) (id : NodeId) : Option Exact :=
  (f.constantAt id).map Value.exact

/-- A constant expression has the value `v`, and everything in it has a value of its recorded type. -/
structure Evaluates (f : Findings) (e : Expr) (v : Value) : Prop where
  /-- The value is what the expression stands for. -/
  exact : e.exact f.exactAt = some v.exact
  typed : f.typeAt e = some v.type
  inRange : v.isInRange = true
  /-- Every name in it is that of a constant with a value. -/
  named : ∀ x name, Node.expr x ∈ e.nodes → x.form = .name name → (f.constantAt x.id).isSome
  /-- Every value in it is in the range of the recorded type. -/
  ranges : ∀ x ∈ e.evaluated, ∃ u : Value, x.exact f.exactAt = some u.exact ∧ f.typeAt x = some u.type ∧ u.isInRange = true

/-- The declaration of a constant has the value `v`. -/
structure Solved (f : Findings) (d : ConstDecl) (v : Value) : Prop where
  recorded : f.valueOf[d.id]? = some v
  /-- A type that is written down is the name of the type of the value. -/
  annotation : ∀ w, d.type = some w → ∃ name, w.form = .named name ∧ Ty.ofName name = .ok v.type
  evaluates : f.Evaluates d.value v
  complete : f.Complete d.parts

end Findings

/-! ## Operators on values are exact -/

lemma BinaryOp.relates_of_isComparison (h : op.isComparison = true) (a b : Int) :
    op.relates a b = some (op.holds (compare a b)) := by
  cases op with
  | eq | ne | lt | le | gt | ge =>
    rcases lt_trichotomy a b with hlt | rfl | hgt
    · rw [compare_lt_iff_lt.2 hlt]
      simp [relates, holds, hlt, Int.le_of_lt hlt, Int.ne_of_lt hlt, Int.lt_asymm hlt]
    · rw [compare_eq_iff_eq.2 rfl]
      simp [relates, holds]
    · rw [compare_gt_iff_gt.2 hgt]
      simp [relates, holds, hgt, Int.le_of_lt hgt, Int.ne_of_gt hgt, Int.lt_asymm hgt]
  | _ => cases h

lemma BinaryOp.isInt_of_accepts (h : op.accepts t = true) (hop : op.isArithmetic = true) : t.isInt = true := by
  cases t with
  | int i => rfl
  | bool => simp [accepts, hop] at h
  | char => cases op <;> simp [accepts, isComparison, isArithmetic] at h hop
  | _ => cases h

lemma BinaryOp.eq_bool_of_accepts (h : op.accepts t = true) (hop : op.isLogical = true) : t = .bool := by
  cases t with
  | int i => simp [accepts, hop] at h
  | bool => rfl
  | char => cases op <;> simp [accepts, isComparison, isLogical] at h hop
  | _ => cases h

/-- Two operands of one type that an operator is defined on give an operation that obeys its rule. -/
theorem Findings.obeysBinary_of_accepts {l r : Expr}
    (h : op.accepts t = true) (hl : f.typeAt l = some t) (hr : f.typeAt r = some t) :
    f.ObeysBinary op l r (if op.isArithmetic then t else .bool) := by
  unfold ObeysBinary
  split
  · next harith => exact ⟨BinaryOp.isInt_of_accepts h harith,hl,hr⟩
  split
  · next hlogical =>
    obtain rfl := BinaryOp.eq_bool_of_accepts h hlogical
    exact ⟨rfl,hl,hr⟩
  · refine ⟨rfl,t,hl,hr,?_⟩
    cases t with
    | int i => exact .inl rfl
    | char => exact .inr (.inl rfl)
    | bool => exact .inr (.inr ⟨rfl,by simpa using (Bool.and_eq_true_iff.1 h).2⟩)
    | _ => cases h

namespace Value

lemma isResult_type (v : Value) : v.type.isResult = true := by
  cases v <;> rfl

lemma inRange_ok (h : inRange (word? n) i = .ok v) : v = .int n i ∧ i.contains n = true := by
  rw [inRange_word?] at h
  split at h
  · exact ⟨(Except.ok.inj h).symm,‹_›⟩
  · cases h

lemma binaryInt_exact {a b : Int} (h : binaryInt op a b i = .ok v) :
    Exact.binary op (.int a) (.int b) = some v.exact ∧ v.isInRange = true ∧
      v.type = if op.isArithmetic then .int i else .bool := by
  have arithmetic {n : Int} (hop : op.isArithmetic = true)
      (hexact : Exact.arithmetic op a b = some n) (hv : inRange (word? n) i = .ok v) :
      Exact.binary op (.int a) (.int b) = some v.exact ∧ v.isInRange = true ∧
        v.type = if op.isArithmetic then .int i else .bool := by
    obtain ⟨rfl,hrange⟩ := inRange_ok hv
    exact ⟨by simp [Exact.binary, hexact, exact],hrange,by simp [hop, type]⟩
  have comparison (hop : op.isComparison = true) (harith : op.isArithmetic = false)
      (hnone : Exact.arithmetic op a b = none) (hv : .bool (op.holds (compare a b)) = v) :
      Exact.binary op (.int a) (.int b) = some v.exact ∧ v.isInRange = true ∧
        v.type = if op.isArithmetic then .int i else .bool := by
    subst hv
    refine ⟨?_,rfl,by simp [harith, type]⟩
    simp [Exact.binary, hnone, BinaryOp.relates_of_isComparison hop, exact]
  cases op with
  | add | sub | mul => exact arithmetic rfl rfl h
  | div | rem =>
    simp only [binaryInt] at h
    split at h
    · cases h
    · exact arithmetic rfl (by simp [Exact.arithmetic, *]) h
  | and | or => cases h
  | _ => exact comparison rfl rfl rfl (Except.ok.inj h)

lemma binary_exact {l r : Value} (hop : op.accepts l.type = true) (htype : r.type = l.type) (h : l.binary op r = .ok v) :
    Exact.binary op l.exact r.exact = some v.exact ∧ v.isInRange = true ∧ v.type = if op.isArithmetic then l.type else .bool := by
  cases l with
  | int a i =>
    cases r with
    | int b j => exact binaryInt_exact h
    | bool b | char c => cases htype
  | bool a =>
    cases r with
    | int b j => cases htype
    | bool b =>
      obtain rfl := Except.ok.inj h
      cases op <;> cases hop <;> cases a <;> cases b <;> exact ⟨rfl,rfl,rfl⟩
    | char c => cases htype
  | char a =>
    cases r with
    | int b j | bool b => cases htype
    | char b =>
      obtain rfl := Except.ok.inj h
      have hcmp : op.isComparison = true := hop
      have harith : op.isArithmetic = false := by
        revert hcmp
        cases op <;> decide
      refine ⟨?_,rfl,by simp [harith, type]⟩
      have hcompare : compare a.toNat b.toNat = compare (a.toNat : Int) b.toNat := by
        simp only [compare, compareOfLessAndEq, Int.ofNat_lt, Int.ofNat_inj]
      simp [Exact.binary, exact, BinaryOp.relates_of_isComparison hcmp, hcompare]

end Value

/-! ## Literals in parentheses -/

namespace Expr

lemma literal_cases (h : x.literal? = some text) : x.form = .int text ∨ ∃ y, x.form = .paren y ∧ y.literal? = some text := by
  obtain ⟨id,span,form⟩ := x
  cases form with
  | paren y => exact .inr ⟨y,rfl,(literal?_paren id span y).symm.trans h⟩
  | int text' =>
    rw [literal?, withoutParens, ExprForm.withoutParensAt] at h
    · exact .inl (congrArg _ (Option.some.inj h))
    · simp
  | _ =>
    rw [literal?, withoutParens, ExprForm.withoutParensAt] at h
    · cases h
    · simp

lemma literal_nodes (x : Expr) (h : x.literal? = some text) {n : Node} (hn : n ∈ x.nodes) :
    ∃ y, n = .expr y ∧ (y = x ∨ y ∈ x.insideParens) ∧ y.literal? = some text := by
  have hleaf : x.withoutParens.form.nodes = [] := by
    unfold literal? at h
    split at h
    · next hform => rw [hform, ExprForm.nodes]
    · cases h
  obtain ⟨y,hy,hmem,hwithout⟩ := mem_nodes_of_leaf hleaf hn
  refine ⟨y,hy,mem_cons.1 hmem,?_⟩
  rw [literal?, hwithout]
  exact h

lemma exact_literal (named : NodeId → Option Exact) : ∀ (x : Expr) {text : String},
    x.literal? = some text → x.exact named = (literalValue? text).map .int
  | ⟨id,span,form⟩, text, h => by
    rcases literal_cases h with rfl | ⟨y,rfl,hy⟩
    · rw [exact, ExprForm.exact]
    · rw [exact, ExprForm.exact, exact_literal named y hy]

lemma skips_literal (f : Findings) (h : x.literal? = some text) : x.skips f = [] := by
  rcases literal_cases h with hform | ⟨y,hform,-⟩ <;> simp [skips, hform]

end Expr

lemma Findings.obeys_literal {N : List Node} {p : Expr}
    (hp : Node.expr p ∈ N) (hform : p.form = .unary .neg x) (h : x.literal? = some text)
    (hn : literalValue? text = some n) (hi : i.contains (-n) = true)
    (huntyped : ∀ y, Node.expr y ∈ x.form.nodes → f.typeAt y = none) : f.Obeys x (.int i) ∨ ObeysNegated N x (.int i) := by
  rcases Expr.literal_cases h with hint | ⟨y,hparen,-⟩
  · exact .inr ⟨p,text,i,n,hp,hform,hint,rfl,hn,hi⟩
  · left
    simp only [Obeys, hparen]
    intro u hu
    rw [huntyped y (by simp [hparen, y.self_mem_nodes])] at hu
    cases hu

end Opal
