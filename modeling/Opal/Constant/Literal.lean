/-!
# Integer literals

The value of an integer literal. Underscores are left out; what remains is read in base 16 after
`0x`, in base 2 after `0b`, and in base 10 otherwise. A sign in front of the digits is understood. A value
outside the range of 128-bit signed integers counts as malformed.
-/

namespace Opal

/-- The value of an ASCII digit or letter as a digit. -/
def digit? (c : Char) : Option Nat :=
  if '0' ≤ c ∧ c ≤ '9' then some (c.toNat - '0'.toNat)
  else if 'a' ≤ c ∧ c ≤ 'f' then some (c.toNat - 'a'.toNat + 10)
  else if 'A' ≤ c ∧ c ≤ 'F' then some (c.toNat - 'A'.toNat + 10)
  else none

/-- The number that `cs` spells in base `base` after digits that spell `acc`. -/
def readDigits (base acc : Nat) : List Char → Option Nat
  | [] => some acc
  | c :: cs =>
    match digit? c with
    | some d => if d < base then readDigits base (acc * base + d) cs else none
    | none => none

/-- The number that `cs` spells in base `base`; there has to be a digit. -/
def readUnsigned (base : Nat) (cs : List Char) : Option Nat :=
  if cs.isEmpty then none else readDigits base 0 cs

/-- The number that `cs` spells in base `base`, with or without a sign in front, if it is in the range
of 128-bit signed integers. -/
def readBase (base : Nat) (cs : List Char) : Option Int :=
  let value : Option Int :=
    match cs with
    | '-' :: ds => (readUnsigned base ds).map fun n => -(n : Int)
    | '+' :: ds => (readUnsigned base ds).map Int.ofNat
    | ds => (readUnsigned base ds).map Int.ofNat
  value.filter fun n => -Int.pow 2 127 ≤ n ∧ n < Int.pow 2 127

/-- The value of an integer literal. -/
def literalValue? (text : String) : Option Int :=
  match text.toList.filter (· != '_') with
  | '0' :: 'x' :: ds => readBase 16 ds
  | '0' :: 'b' :: ds => readBase 2 ds
  | ds => readBase 10 ds

end Opal
