/-!
# Ranges of code points

A class of characters as a list of ranges of code points, in order.
-/

namespace Opal

/-- A range of code points with both ends. -/
structure CodeRange where
  first : Nat
  last : Nat
deriving DecidableEq, Repr

namespace CodeRange

/-- The ranges after `n` that have these lengths: in turn the length of a gap and of the range after it. -/
def ofLengths (n : Nat) : List Nat → List CodeRange
  | gap :: length :: rest => ⟨n + gap,n + gap + length - 1⟩ :: ofLengths (n + gap + length) rest
  | _ => []

example : ofLengths 0 [0, 32, 95, 34, 12, 1] = [⟨0x0,0x1f⟩, ⟨0x7f,0xa0⟩, ⟨0xad,0xad⟩] := by decide

/-- Whether one of the ranges covers `n`. The search ends at the first range that starts after `n`. -/
def inSorted : List CodeRange → Nat → Bool
  | [], _ => false
  | r :: rest, n => if n < r.first then false else n ≤ r.last || inSorted rest n

end CodeRange

end Opal
