import Opal.Ty.Basic

/-!
# Numbered types

Types are numbered in the order in which they are first built. The eleven basic types come first;
every further type gets the next number, once.
-/

namespace Opal

abbrev TypeId := Nat

/-- The types that have a number, in the order of their numbers. -/
structure TypeRegistry where
  types : Array Ty
deriving DecidableEq, Repr

namespace TypeRegistry

def basic : Array Ty :=
  #[.error, .void, .bool, .char, .string, .int .u8, .int .i8, .int .u16, .int .i16, .int .u32, .int .i32]

def initial : TypeRegistry :=
  ⟨basic⟩

def size (t : TypeRegistry) : Nat :=
  t.types.size

def get? (t : TypeRegistry) (id : TypeId) : Option Ty :=
  t.types[id]?

def idOf? (t : TypeRegistry) (ty : Ty) : Option TypeId :=
  t.types.idxOf? ty

def intern (t : TypeRegistry) (ty : Ty) : TypeRegistry :=
  if t.types.contains ty then t else ⟨t.types.push ty⟩

@[simp] theorem size_initial : initial.size = 11 := rfl

theorem intern_of_mem {t : TypeRegistry} {ty : Ty} (h : ty ∈ t.types) : t.intern ty = t := by
  simp [intern, h]

theorem intern_of_not_mem {t : TypeRegistry} {ty : Ty} (h : ty ∉ t.types) : t.intern ty = ⟨t.types.push ty⟩ := by
  simp [intern, h]

theorem mem_intern (t : TypeRegistry) (ty : Ty) : ty ∈ (t.intern ty).types := by
  by_cases h : ty ∈ t.types
  · rwa [intern_of_mem h]
  · simp [intern_of_not_mem h]

theorem get?_intern {t : TypeRegistry} {id : TypeId} (ty : Ty) (h : id < t.size) : (t.intern ty).get? id = t.get? id := by
  by_cases hm : ty ∈ t.types
  · rw [intern_of_mem hm]
  · rw [intern_of_not_mem hm]
    have hlt : id < t.types.size := h
    simp [get?, Array.getElem?_push, Nat.ne_of_lt hlt]

end TypeRegistry

/-- A compound type over the numbers of its parts. -/
inductive TypeShape where
  | array (element : TypeId) (size : Nat)
  | reference (mutable : Bool) (target : TypeId)
  | function (params : List TypeId) (ret : TypeId)
deriving DecidableEq, Hashable, Repr

namespace TypeRegistry

/-- The type of a shape, if all its parts have types. -/
def typeOf? (t : TypeRegistry) : TypeShape → Option Ty
  | .array element size => do return .array (← t.get? element) size
  | .reference mutable target => do return .reference mutable (← t.get? target)
  | .function params ret => do
    let params ← params.mapM t.get?
    return .function params (← t.get? ret)

/-- Gives the type of a shape a number unless it has one, if all its parts have types. -/
def add? (t : TypeRegistry) (shape : TypeShape) : Option (TypeId × TypeRegistry) := do
  let ty ← t.typeOf? shape
  let t' := t.intern ty
  return (← t'.idOf? ty, t')

end TypeRegistry

end Opal
