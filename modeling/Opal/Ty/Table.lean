import Std.Data.HashMap
import Opal.Ty.Registry

/-!
# The table of types

A table keeps types one level at a time: the parts of a compound type are told by their numbers. A map from entries to
numbers keeps an entry from being stored twice, so types are compared by their numbers alone.
-/

namespace Opal

abbrev BasicTy := { ty : Ty // ty ∈ TypeRegistry.basic }

instance : Hashable BasicTy :=
  ⟨fun ty => hash (TypeRegistry.basic.idxOf ty.val)⟩

/-- A type, one level of it: a basic type, or a compound type over the numbers of its parts. -/
inductive TypeEntry where
  | basic (ty : BasicTy)
  | compound (shape : TypeShape)
deriving DecidableEq, Hashable

/-- The types that have a number, one level at a time. -/
structure TypeTable where
  /-- The entries in the order of their numbers. -/
  types : Array TypeEntry
  /-- The number of each entry. -/
  interned : Std.HashMap TypeEntry TypeId

namespace TypeTable

def get? (t : TypeTable) (id : TypeId) : Option TypeEntry :=
  t.types[id]?

/-- The number of an entry, which is given the next one unless it has one. -/
def intern (t : TypeTable) (e : TypeEntry) : TypeId × TypeTable :=
  match t.interned[e]? with
  | some id => (id, t)
  | none => (t.types.size, ⟨t.types.push e,t.interned.insert e t.types.size⟩)

/-- Asks for the numbers of entries, one after the other. -/
def run (t : TypeTable) : List TypeEntry → List TypeId × TypeTable
  | [] => ([], t)
  | e :: es =>
    let (id, t') := t.intern e
    let (ids, u) := t'.run es
    (id :: ids, u)

def basicEntries : List TypeEntry :=
  TypeRegistry.basic.toList.attach.map fun ⟨ty,h⟩ => .basic ⟨ty,Array.mem_toList_iff.1 h⟩

/-- A table with the basic types. -/
def initial : TypeTable :=
  (run ⟨#[],∅⟩ basicEntries).2

/-- How a value whose type has the number `found` fits where the type with the number `expected` is required. Only
numbers are compared; that of the type of a failed declaration is zero. -/
def compatibility (t : TypeTable) (found expected : TypeId) : Ty.Fit :=
  if found = expected ∨ found = 0 ∨ expected = 0 then .equal
  else
    match t.get? found, t.get? expected with
    | some (.compound (.reference true source)), some (.compound (.reference false target)) =>
      if source = target then .assignable else .incompatible
    | _, _ => .incompatible

end TypeTable

end Opal
