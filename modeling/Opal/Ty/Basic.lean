/-!
# Types

The types of the language, and how they are written.
-/

namespace Opal

/-- A fixed-width integer type. -/
inductive IntTy where
  | u8 | i8 | u16 | i16 | u32 | i32
deriving DecidableEq, Repr

namespace IntTy

def all : List IntTy :=
  [u8, i8, u16, i16, u32, i32]

def bits : IntTy → Nat
  | u8 | i8 => 8
  | u16 | i16 => 16
  | u32 | i32 => 32

def signed : IntTy → Bool
  | i8 | i16 | i32 => true
  | u8 | u16 | u32 => false

def name : IntTy → String
  | u8 => "u8"
  | i8 => "i8"
  | u16 => "u16"
  | i16 => "i16"
  | u32 => "u32"
  | i32 => "i32"

def ofName? (text : String) : Option IntTy :=
  all.find? fun i => i.name == text

def min (i : IntTy) : Int :=
  if i.signed then -Int.pow 2 (i.bits - 1) else 0

def max (i : IntTy) : Int :=
  if i.signed then Int.pow 2 (i.bits - 1) - 1 else Int.pow 2 i.bits - 1

/-- Whether `n` is a value of the type. -/
def contains (i : IntTy) (n : Int) : Bool :=
  i.min ≤ n && n ≤ i.max

/-- The values of a type are the integers between its least and its greatest value. -/
theorem contains_iff (i : IntTy) (n : Int) : i.contains n = true ↔ i.min ≤ n ∧ n ≤ i.max := by
  simp [contains]

theorem le_min (i : IntTy) : -Int.pow 2 31 ≤ i.min := by
  cases i <;> decide

theorem max_lt (i : IntTy) : i.max < Int.pow 2 32 := by
  cases i <;> decide

end IntTy

/-- A type. -/
inductive Ty where
  /-- The type of a binding whose declaration failed. -/
  | error
  /-- The result type of a function that returns nothing. -/
  | void
  | bool
  | char
  | string
  | int (i : IntTy)
  | array (element : Ty) (size : Nat)
  | reference (mutable : Bool) (target : Ty)
  /-- Functions. The names of parameters are no part of the type. -/
  | function (params : List Ty) (ret : Ty)
deriving Repr, Inhabited

namespace Ty

mutual

def same : Ty → Ty → Bool
  | error, error => true
  | void, void => true
  | bool, bool => true
  | char, char => true
  | string, string => true
  | int i, int j => i == j
  | array e n, array f m => same e f && n == m
  | reference a t, reference b u => a == b && same t u
  | function ps r, function qs s => sameAll ps qs && same r s
  | _, _ => false

def sameAll : List Ty → List Ty → Bool
  | [], [] => true
  | a :: as, b :: bs => same a b && sameAll as bs
  | _, _ => false

end

mutual

theorem same_self : ∀ a : Ty, same a a = true
  | error | void | bool | char | string => rfl
  | int i => by simp [same]
  | array e n => by simp [same, same_self e]
  | reference m t => by simp [same, same_self t]
  | function ps r => by simp [same, sameAll_self ps, same_self r]

theorem sameAll_self : ∀ as : List Ty, sameAll as as = true
  | [] => rfl
  | a :: as => by simp [sameAll, same_self a, sameAll_self as]

end

mutual

theorem eq_of_same : ∀ a b : Ty, same a b = true → a = b
  | error, b, h => by cases b <;> simp_all [same]
  | void, b, h => by cases b <;> simp_all [same]
  | bool, b, h => by cases b <;> simp_all [same]
  | char, b, h => by cases b <;> simp_all [same]
  | string, b, h => by cases b <;> simp_all [same]
  | int i, b, h => by cases b <;> simp_all [same]
  | array e n, b, h => by
    cases b with
    | array f m =>
      simp only [same, Bool.and_eq_true, beq_iff_eq] at h
      rw [eq_of_same e f h.1, h.2]
    | _ => simp [same] at h
  | reference m t, b, h => by
    cases b with
    | reference k u =>
      simp only [same, Bool.and_eq_true, beq_iff_eq] at h
      rw [h.1, eq_of_same t u h.2]
    | _ => simp [same] at h
  | function ps r, b, h => by
    cases b with
    | function qs s =>
      simp only [same, Bool.and_eq_true] at h
      rw [eq_of_sameAll ps qs h.1, eq_of_same r s h.2]
    | _ => simp [same] at h

theorem eq_of_sameAll : ∀ as bs : List Ty, sameAll as bs = true → as = bs
  | [], [], _ => rfl
  | [], b :: bs, h => by simp [sameAll] at h
  | a :: as, [], h => by simp [sameAll] at h
  | a :: as, b :: bs, h => by
    simp only [sameAll, Bool.and_eq_true] at h
    rw [eq_of_same a b h.1, eq_of_sameAll as bs h.2]

end

theorem same_iff (a b : Ty) : same a b = true ↔ a = b :=
  ⟨eq_of_same a b,fun h => h ▸ same_self a⟩

instance : DecidableEq Ty := fun a b => decidable_of_iff (same a b = true) (same_iff a b)

mutual

/-- A type as the language writes it. A function that returns nothing has no arrow. -/
def display : Ty → String
  | error => "\x7berror\x7d"
  | void => "void"
  | bool => "bool"
  | char => "char"
  | string => "string"
  | int i => i.name
  | array e n => "[" ++ e.display ++ ", " ++ toString n ++ "]"
  | reference true t => "^mut " ++ t.display
  | reference false t => "^" ++ t.display
  | function ps void => "def(" ++ ", ".intercalate (displayAll ps) ++ ")"
  | function ps r => "def(" ++ ", ".intercalate (displayAll ps) ++ ") -> " ++ r.display

def displayAll : List Ty → List String
  | [] => []
  | a :: as => a.display :: displayAll as

end

def int? : Ty → Option IntTy
  | int i => some i
  | _ => none

def isInt (t : Ty) : Bool :=
  t.int?.isSome

/-- The types that a constant may have. -/
def isScalar : Ty → Bool
  | int _ | bool | char => true
  | _ => false

/-- How the type of a value relates to the type that is required of it. -/
inductive Fit where
  | equal
  /-- Different, but the value may be used all the same. -/
  | assignable
  | incompatible
deriving DecidableEq, Repr

def Fit.ok (c : Fit) : Bool :=
  c != .incompatible

/-- How a value of type `found` fits where `expected` is required: equal types fit, the type of a
failed declaration fits everything, and a mutable reference fits where an immutable one to the same
type is required. -/
def fit (found expected : Ty) : Fit :=
  if found = expected ∨ found = error ∨ expected = error then .equal
  else
    match found, expected with
    | reference true t, reference false u => if t = u then .assignable else .incompatible
    | _, _ => .incompatible

end Ty

end Opal
