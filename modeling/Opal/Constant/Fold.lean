import Opal.Check.Error
import Opal.Constant.Value
import Opal.Syntax.Operator

/-!
# Operators on constant values

Constants are computed in 64-bit words, with no wrapping: a result that does not fit in a word, or that
is outside the range of the type, is an overflow. Division truncates toward zero and the remainder has
the sign of the dividend.
-/

namespace Opal

/-- Whether `a op b` holds for a comparison operator on values in order `cmp`. -/
def BinaryOp.holds (op : BinaryOp) (cmp : Ordering) : Bool :=
  match op with
  | .eq => cmp == .eq
  | .ne => cmp != .eq
  | .lt => cmp == .lt
  | .le => cmp != .gt
  | .gt => cmp == .gt
  | _ => cmp != .lt

/-- The integer `n` as a signed 64-bit word, if it fits in one. -/
def word? (n : Int) : Option Int :=
  if -Int.pow 2 63 ≤ n ∧ n < Int.pow 2 63 then some n else none

/-- Every value of an integer type fits in a word. -/
theorem word?_of_contains {i : IntTy} {n : Int} (h : i.contains n = true) : word? n = some n := by
  rw [IntTy.contains_iff] at h
  have hmin := i.le_min
  have hmax := i.max_lt
  have hword : Int.pow 2 31 ≤ Int.pow 2 63 ∧ Int.pow 2 32 ≤ Int.pow 2 63 := by decide
  rw [word?, if_pos (by omega)]

namespace Value

/-- The result of a computation in words as a value of type `i`; an overflow if the result did not fit
in a word or is outside the range. -/
def inRange (result : Option Int) (i : IntTy) : Except SemanticCause Value :=
  match result with
  | some n => if i.contains n then .ok (.int n i) else .error (.arithmeticOverflow i.name)
  | none => .error (.arithmeticOverflow i.name)

theorem inRange_word? (n : Int) (i : IntTy) : inRange (word? n) i =
      if i.contains n then .ok (.int n i) else .error (.arithmeticOverflow i.name) := by
  by_cases h : i.contains n = true
  · rw [word?_of_contains h]; rfl
  · rw [if_neg h, word?]
    split <;> simp [inRange, h]

/-- A binary operator on two integers of type `i`. There is no logical operator on integers. -/
def binaryInt (op : BinaryOp) (a b : Int) (i : IntTy) : Except SemanticCause Value :=
  match op with
  | .add => inRange (word? (a + b)) i
  | .sub => inRange (word? (a - b)) i
  | .mul => inRange (word? (a * b)) i
  | .div => if b = 0 then .error .divisionByZero else inRange (word? (a.tdiv b)) i
  | .rem => if b = 0 then .error .divisionByZero else inRange (word? (a.tmod b)) i
  | .and | .or => .error (.arithmeticOverflow i.name)
  | .eq | .ne | .lt | .le | .gt | .ge => .ok (.bool (op.holds (compare a b)))

def binaryBool (op : BinaryOp) (a b : Bool) : Bool :=
  match op with
  | .and => a && b
  | .or => a || b
  | .eq => a == b
  | _ => a != b

/-- A binary operator on two values of one type. -/
def binary (op : BinaryOp) : Value → Value → Except SemanticCause Value
  | int a i, int b _ => binaryInt op a b i
  | bool a, bool b => .ok (.bool (binaryBool op a b))
  | char a, char b => .ok (.bool (op.holds (compare a.toNat b.toNat)))
  | _, _ => .error (.notAConstantExpression ("'" ++ op.display ++ "' on mixed operands"))

end Value

end Opal
