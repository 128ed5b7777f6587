import Opal.Proofs.NumberedTypes

/-!
# Numbers stand for types

A table compares types one level at a time, through the numbers of their parts. Still a number stands for one whole type: its
parts have smaller numbers, so it can be put together again, and no type is put together from two numbers.
-/

namespace Opal

open List Option

namespace Ty

lemma fit_equal_iff (a b : Ty) : a.fit b = .equal ↔ a = b ∨ a = .error ∨ b = .error := by
  unfold fit
  split
  · next h => simpa using h
  · next h =>
    refine ⟨fun heq => ?_,fun heq => absurd heq h⟩
    split at heq
    · split at heq <;> cases heq
    · cases heq

lemma fit_assignable_iff (a b : Ty) : a.fit b = .assignable ↔ ∃ u, a = .reference true u ∧ b = .reference false u := by
  constructor
  · intro h
    unfold fit at h
    split at h
    · cases h
    · split at h
      · split at h
        · next huv => exact ⟨_,rfl,huv ▸ rfl⟩
        · cases h
      · cases h
  · rintro ⟨u,rfl,rfl⟩
    simp [fit]

/-- Two answers are the same if they are equal, and assignable, under the same conditions. -/
theorem Fit.ext {f g : Fit} (hequal : f = .equal ↔ g = .equal) (hassignable : f = .assignable ↔ g = .assignable) : f = g := by
  cases f <;> cases g <;> simp_all

end Ty

namespace TypeTable

/-- Every entry is over numbers that are there when it is asked for. -/
def Knows (t : TypeTable) : List TypeEntry → Prop
  | [] => True
  | e :: es => (∀ p ∈ e.parts, p < t.types.size) ∧ (t.intern e).2.Knows es

/-- The type that is put together from a number, through at most `n` levels. -/
def unfoldWithin (t : TypeTable) : Nat → TypeId → Option Ty
  | 0, _ => none
  | n + 1, id => (t.get? id).bind fun e => e.type? (t.unfoldWithin n)

/-- The type that is put together from a number. Parts have smaller numbers, so there are no more levels than the
number and one. -/
def unfold (t : TypeTable) (id : TypeId) : Option Ty :=
  t.unfoldWithin (id + 1) id

/-! ### Tables and registries -/

/-- The registry holds the whole types of which the table holds the entries, under the same numbers. -/
structure Refines (t : TypeTable) (r : TypeRegistry) : Prop where
  layered : r.Layered
  size : t.types.size = r.size
  types : ∀ {id e}, t.get? id = some e ↔ r.Holds id e
  interned : ∀ {id e}, t.interned[e]? = some id ↔ r.Holds id e

variable {t u : TypeTable} {r r' : TypeRegistry} {e : TypeEntry} {es : List TypeEntry} {i j id : TypeId} {a b : Ty}

lemma compatibility_equal_iff : t.compatibility i j = .equal ↔ i = j ∨ i = 0 ∨ j = 0 := by
  unfold compatibility
  split
  · next h => simpa using h
  · next h =>
    refine ⟨fun heq => ?_,fun heq => absurd heq h⟩
    split at heq
    · split at heq <;> cases heq
    · cases heq

/-- A value is assignable where the numbers are those of references to one target. -/
theorem compatibility_assignable_iff : t.compatibility i j = .assignable ↔ ¬(i = j ∨ i = 0 ∨ j = 0) ∧
    ∃ p, t.get? i = some (.compound (.reference true p)) ∧ t.get? j = some (.compound (.reference false p)) := by
  constructor
  · intro heq
    unfold compatibility at heq
    split at heq
    · cases heq
    · next hne =>
      split at heq
      · next source target hsource htarget =>
        split at heq
        · next hst => exact ⟨hne,source,hsource,hst ▸ htarget⟩
        · cases heq
      · cases heq
  · rintro ⟨hne,p,hsource,htarget⟩
    rw [compatibility, if_neg hne, hsource, htarget]
    exact if_pos rfl

namespace Refines

lemma empty : Refines ⟨#[],∅⟩ ⟨#[]⟩ where
  layered := ⟨by simp [TypeRegistry.get?],by simp [TypeRegistry.get?]⟩
  size := rfl
  types := by simp [TypeTable.get?, TypeRegistry.Holds, TypeRegistry.get?]
  interned := by simp [TypeRegistry.Holds, TypeRegistry.get?]

/-- A table and a registry answer alike, and stay alike. -/
theorem intern (h : t.Refines r) (hparts : ∀ p ∈ e.parts, p < t.types.size) :
    ∃ r', r.call e = some ((t.intern e).1, r') ∧ (t.intern e).2.Refines r' := by
  obtain ⟨⟨id,r'⟩,hcall⟩ := isSome_iff_exists.1 (h.layered.call_isSome_iff.2 fun p hp => h.size ▸ hparts p hp)
  have hlayered := h.layered.call hcall
  obtain ⟨hholds,rfl | ⟨hnew,rfl,hsize,hother⟩⟩ := h.layered.call_answer hcall
  · have hintern : t.intern e = (id, t) := by rw [TypeTable.intern, h.interned.2 hholds]
    rw [hintern]
    exact ⟨r',hcall,h⟩
  · have hfresh : t.interned[e]? = none := eq_none_iff_forall_ne_some.2 fun i hi => hnew i (h.interned.1 hi)
    have hintern : t.intern e = (r.size, ⟨t.types.push e,t.interned.insert e r.size⟩) := by
      rw [TypeTable.intern, hfresh, h.size]
    have hold {i e'} (hi : i ≠ r.size) : r'.Holds i e' ↔ r.Holds i e' :=
      hlayered.holds_iff_of_ne (TypeRegistry.extends_call hcall) hsize hother hi
    rw [hintern]
    refine ⟨r',hcall,hlayered,by simp [h.size, hsize],fun {i e'} => ?_,fun {i e'} => ?_⟩
    · rw [TypeTable.get?, Array.getElem?_push, h.size]
      split
      · next hi =>
        subst hi
        exact ⟨fun heq => some_inj.1 heq ▸ hholds,fun he' => congrArg some (hlayered.holds_unique hholds he')⟩
      · next hi => rw [hold hi, ← h.types, TypeTable.get?]
    · rw [Std.HashMap.getElem?_insert]
      by_cases hi : i = r.size
      · subst hi
        have hnone : ¬r.Holds r.size e' := fun ⟨_,hty,_⟩ => Nat.lt_irrefl _ (TypeRegistry.lt_of_get? hty)
        by_cases he : e = e'
        · subst he
          simp [hholds]
        · rw [if_neg (by simpa using he), h.interned]
          exact ⟨fun he' => absurd he' hnone,fun he' => absurd (hlayered.holds_unique hholds he') he⟩
      · rw [hold hi, ← h.interned]
        split
        · next he =>
          obtain rfl := beq_iff_eq.1 he
          rw [hfresh]
          simp [Ne.symm hi]
        · rfl

lemma run (h : t.Refines r) (hknows : t.Knows es) : ∃ r', r.run es = some ((t.run es).1, r') ∧ (t.run es).2.Refines r' := by
  induction es generalizing t r with
  | nil => exact ⟨r,rfl,h⟩
  | cons e es ih =>
    obtain ⟨r1,hcall,h1⟩ := h.intern hknows.1
    obtain ⟨r2,hrun,h2⟩ := ih h1 hknows.2
    exact ⟨r2,by rw [TypeRegistry.run, hcall, bind_some, hrun]; rfl,h2⟩

/-! ### Types put together -/

section

variable (h : t.Refines r)
include h

/-- By induction on the levels: the parts of an entry have smaller numbers, for which there are levels enough. -/
theorem unfoldWithin_eq {n : Nat} (hid : id < n) : t.unfoldWithin n id = r.get? id := by
  induction n generalizing id with
  | zero => exact absurd hid (Nat.not_lt_zero id)
  | succ n ih =>
    rw [unfoldWithin]
    cases he : t.get? id with
    | some e =>
      obtain ⟨ty,hty,htype⟩ := h.types.1 he
      rw [bind_some, hty]
      refine TypeEntry.type?_mono (fun p hp u hu => ?_) htype
      have hlt := h.layered.lt_of_holds ⟨ty,hty,htype⟩ hp
      rwa [ih (Nat.lt_of_lt_of_le hlt (Nat.le_of_lt_succ hid))]
    | none =>
      have hsize : r.size ≤ id := h.size ▸ Array.getElem?_eq_none_iff.1 he
      rw [bind_none, TypeRegistry.get?, Array.getElem?_eq_none hsize]

lemma unfold_eq (id : TypeId) : t.unfold id = r.get? id :=
  h.unfoldWithin_eq (Nat.lt_succ_self id)

lemma eq_iff (hi : t.unfold i = some a) (hj : t.unfold j = some b) : i = j ↔ a = b := by
  rw [h.unfold_eq] at hi hj
  exact ⟨fun hij => mem_unique hi (hij ▸ hj),fun hab => h.layered.distinct hi (hab ▸ hj)⟩

/-- The entry of a reference tells the number of its target. -/
theorem reference_iff {mutable : Bool} (hi : t.unfold i = some a) :
    (∃ v, a = .reference mutable v ∧ r.get? id = some v) ↔ t.get? i = some (.compound (.reference mutable id)) := by
  rw [h.unfold_eq] at hi
  rw [h.types]
  simp only [TypeRegistry.Holds, hi, some_inj, exists_eq_left', TypeRegistry.typeFor?, TypeEntry.type?, TypeShape.type?, map_eq_some_iff]
  exact exists_congr fun v => ⟨fun hv => ⟨hv.2,hv.1.symm⟩,fun hv => ⟨hv.2.symm,hv.1⟩⟩

lemma get?_eq_of_extends (h' : u.Refines r') (hext : r.Extends r') (hid : id < t.types.size) :
    u.get? id = t.get? id ∧ u.unfold id = t.unfold id := by
  have he : t.get? id = some t.types[id] := Array.getElem?_eq_getElem hid
  obtain ⟨ty,hty,-⟩ := h.types.1 he
  constructor
  · rw [h'.types.2 ((h.types.1 he).extends hext), he]
  · rw [h'.unfold_eq, h.unfold_eq, hext id ty hty, hty]

/-- A table knows what the registry is asked for with success. -/
theorem knows {ids : List TypeId} (hrun : r.run es = some (ids, r')) : t.Knows es := by
  induction es generalizing t r ids with
  | nil => trivial
  | cons e es ih =>
    obtain ⟨⟨id,r1⟩,hcall,hrest⟩ := bind_eq_some_iff.1 hrun
    obtain ⟨q,hq,hrun⟩ := map_eq_some_iff.1 hrest
    cases hrun
    have hparts : ∀ p ∈ e.parts, p < t.types.size := fun p hp =>
      h.size ▸ h.layered.call_isSome_iff.1 (isSome_of_eq_some hcall) p hp
    obtain ⟨r2,hcall2,h2⟩ := h.intern hparts
    obtain ⟨-,rfl⟩ := Prod.mk.inj (some_inj.1 (hcall.symm.trans hcall2))
    exact ⟨hparts,ih h2 hq⟩

/-! ### How values fit -/

variable (hzero : t.unfold 0 = some .error) (hi : t.unfold i = some a) (hj : t.unfold j = some b)
include hzero hi hj

/-- Numbers fit as their types do. -/
theorem compatibility_eq : t.compatibility i j = a.fit b := by
  have hcond : (i = j ∨ i = 0 ∨ j = 0) ↔ a = b ∨ a = .error ∨ b = .error := by
    rw [h.eq_iff hi hj, h.eq_iff hi hzero, h.eq_iff hj hzero]
  refine Ty.Fit.ext ?_ ?_
  · rw [Ty.fit_equal_iff, ← hcond, compatibility_equal_iff]
  · rw [Ty.fit_assignable_iff, compatibility_assignable_iff, hcond]
    constructor
    · rintro ⟨-,p,hsource,htarget⟩
      obtain ⟨u,ha,hu⟩ := (h.reference_iff hi).2 hsource
      obtain ⟨v,hb,hv⟩ := (h.reference_iff hj).2 htarget
      exact ⟨u,ha,hb.trans (by rw [mem_unique hu hv])⟩
    · rintro ⟨u,rfl,rfl⟩
      obtain ⟨p,-,hp⟩ := h.layered.parts (h.unfold_eq i ▸ hi) u (.head _)
      exact ⟨by simp,p,(h.reference_iff hi).1 ⟨u,rfl,hp⟩,(h.reference_iff hj).1 ⟨u,rfl,hp⟩⟩

end

end Refines

/-! ### Tables that were asked for types -/

/-- Numbers stand for types, one for one. -/
structure Canonical (t : TypeTable) : Prop where
  /-- The basic types have the numbers that they have at the start. -/
  basic : ∀ id < 11, t.get? id = initial.get? id ∧ t.unfold id = TypeRegistry.basic[id]?
  /-- From an entry to its number and back: no entry is stored twice. -/
  inverse : ∀ id e, t.get? id = some e ↔ t.interned[e]? = some id
  /-- An entry is over smaller numbers. -/
  descends : ∀ id e, t.get? id = some e → ∀ p ∈ e.parts, p < id
  /-- A whole type is put together from a number, and no more levels of it are there. -/
  unfolds : ∀ id < t.types.size, ∃ ty, t.unfold id = some ty ∧ ∀ n, id < n → t.unfoldWithin n id = some ty
  /-- The number can be told from the type. -/
  eq_iff : ∀ i < t.types.size, ∀ j < t.types.size, i = j ↔ t.unfold i = t.unfold j
  /-- Values fit by the numbers of their types as they fit by their types. -/
  fits : ∀ i j a b, t.unfold i = some a → t.unfold j = some b → t.compatibility i j = a.fit b
  equal : ∀ i j a b, t.unfold i = some a → t.unfold j = some b →
    (t.compatibility i j = .equal ↔ a = b ∨ a = .error ∨ b = .error)
  assignable : ∀ i j a b, t.unfold i = some a → t.unfold j = some b →
    (t.compatibility i j = .assignable ↔ ∃ v, a = .reference true v ∧ b = .reference false v)
  incompatible : ∀ i j a b, t.unfold i = some a → t.unfold j = some b →
    (t.compatibility i j = .incompatible ↔ ¬(a = b ∨ a = .error ∨ b = .error) ∧
      ¬∃ v, a = .reference true v ∧ b = .reference false v)

lemma knows_basicEntries : Knows ⟨#[],∅⟩ basicEntries := by
  have hnone : ∀ es : List TypeEntry, (∀ e ∈ es, e.parts = []) → ∀ t : TypeTable, t.Knows es := by
    intro es hes
    induction es with
    | nil => exact fun _ => trivial
    | cons e es ih => exact fun t => ⟨by simp [hes e (.head _)],ih (fun e he => hes e (.tail _ he)) _⟩
  refine hnone _ (fun e he => ?_) _
  obtain ⟨_,-,rfl⟩ := mem_map.1 he
  rfl

lemma refines_initial : initial.Refines .initial := by
  obtain ⟨r,hrun,h⟩ := Refines.empty.run knows_basicEntries
  rw [TypeRegistry.run_empty, some_inj, Prod.mk.injEq] at hrun
  exact hrun.2 ▸ h

lemma Refines.canonical (h : t.Refines r) (hext : TypeRegistry.initial.Extends r) : t.Canonical := by
  have hbasic (id : TypeId) (hid : id < 11) : t.get? id = initial.get? id ∧ t.unfold id = initial.unfold id :=
    refines_initial.get?_eq_of_extends h hext (refines_initial.size ▸ hid)
  have hunfold (id : TypeId) : initial.unfold id = TypeRegistry.basic[id]? := refines_initial.unfold_eq id
  have hzero : t.unfold 0 = some .error := (hbasic 0 (by decide)).2.trans (hunfold 0)
  have hfits {i j a b} (hi : t.unfold i = some a) (hj : t.unfold j = some b) := h.compatibility_eq hzero hi hj
  exact {
    basic := fun id hid => ⟨(hbasic id hid).1,(hbasic id hid).2.trans (hunfold id)⟩
    inverse := fun _ _ => h.types.trans h.interned.symm
    descends := fun _ _ he _ hp => h.layered.lt_of_holds (h.types.1 he) hp
    unfolds := fun id hid => by
      obtain ⟨ty,hty⟩ := TypeRegistry.exists_get? (h.size ▸ hid)
      exact ⟨ty,(h.unfold_eq id).trans hty,fun n hn => (h.unfoldWithin_eq hn).trans hty⟩
    eq_iff := fun i hi j _ => by
      obtain ⟨ty,hty⟩ := TypeRegistry.exists_get? (h.size ▸ hi)
      have hi := (h.unfold_eq i).trans hty
      exact ⟨fun hij => hij ▸ rfl,fun hij => (h.eq_iff hi (hij ▸ hi)).2 rfl⟩
    fits := fun _ _ _ _ => hfits
    equal := fun _ _ a b hi hj => by rw [hfits hi hj, a.fit_equal_iff]
    assignable := fun _ _ a b hi hj => by rw [hfits hi hj, a.fit_assignable_iff]
    incompatible := fun _ _ a b hi hj => by
      rw [hfits hi hj, ← a.fit_equal_iff, ← a.fit_assignable_iff]
      cases a.fit b <;> simp }

/-- Whatever a table was asked for, over numbers that were there, its numbers stand for types, one for one, and go on to do so
whatever it is asked for later. A registry of whole types gives the same answers, and holds what is put together. -/
theorem canonical_of_run {calls later : List TypeEntry} {ids ids' : List TypeId} (hcalls : initial.Knows calls)
    (ht : initial.run calls = (ids, t)) (hlater : t.Knows later) (hu : t.run later = (ids', u)) :
    t.Canonical ∧ (∀ id < t.types.size, u.get? id = t.get? id ∧ u.unfold id = t.unfold id) ∧
      ∃ r, TypeRegistry.initial.run calls = some (ids, r) ∧ r.size = t.types.size ∧ ∀ id, r.get? id = t.unfold id := by
  obtain ⟨r,hr,h⟩ := refines_initial.run hcalls
  rw [ht] at hr h
  obtain ⟨r',hr',h'⟩ := h.run hlater
  rw [hu] at h'
  have hext := (TypeRegistry.layered_initial.run hr).2
  refine ⟨h.canonical hext,fun id hid => ?_,r,hr,h.size.symm,fun id => (h.unfold_eq id).symm⟩
  exact h.get?_eq_of_extends h' (h.layered.run hr').2 hid

/-- Arrays of four bytes, mutable references to these, functions from those and truth values, and the arrays once more. -/
def sampleCalls : List TypeEntry :=
  [.compound (.array 5 4), .compound (.reference true 11), .compound (.function [12, 2] 8), .compound (.array 5 4)]

/-- A table that was asked for arrays a second time. -/
theorem canonical_of_run_sample : (initial.run sampleCalls).1 = [11, 12, 13, 11] ∧ (initial.run sampleCalls).2.Canonical := by
  have hrun : (TypeRegistry.initial.run sampleCalls).isSome = true := by decide +kernel
  obtain ⟨⟨ids,r⟩,hr⟩ := isSome_iff_exists.1 hrun
  have hknows := refines_initial.knows hr
  obtain ⟨hcanonical,-,r',hr',-,-⟩ := canonical_of_run hknows rfl (show (initial.run sampleCalls).2.Knows [] from trivial) rfl
  have hids : (TypeRegistry.initial.run sampleCalls).map Prod.fst = some [11, 12, 13, 11] := by decide +kernel
  rw [hr'] at hids
  exact ⟨some_inj.1 hids,hcanonical⟩

end TypeTable

end Opal
