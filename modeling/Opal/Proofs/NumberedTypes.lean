import Mathlib.Data.List.Forall2
import Opal.Ty.Table

/-!
# Numbers stand for types

A registry is asked for types one level at a time. Still a number stands for one whole type: its parts were numbered before it,
so it can be put together again.
-/

namespace Opal

open List Option

variable {α β : Type} {p : TypeId}

/-! ### Types one level at a time -/

def Ty.parts : Ty → List Ty
  | .array element _ => [element]
  | .reference _ target => [target]
  | .function params ret => ret :: params
  | _ => []

def TypeShape.parts : TypeShape → List TypeId
  | .array element _ => [element]
  | .reference _ target => [target]
  | .function params ret => ret :: params

def TypeEntry.parts : TypeEntry → List TypeId
  | .basic _ => []
  | .compound shape => shape.parts

/-- The type of a shape whose parts have the types that `part` says. -/
def TypeShape.type? (part : TypeId → Option Ty) : TypeShape → Option Ty
  | .array element size => (part element).map fun e => .array e size
  | .reference mutable target => (part target).map fun t => .reference mutable t
  | .function params ret =>
    (params.mapM part).bind fun ps => (part ret).map fun r => .function ps r

/-- The type of an entry whose parts have the types that `part` says. -/
def TypeEntry.type? (part : TypeId → Option Ty) : TypeEntry → Option Ty
  | .basic ty => some ty
  | .compound shape => shape.type? part

/-- An entry and a type that are built alike, whatever their parts are. -/
def TypeEntry.Alike : TypeEntry → Ty → Prop
  | .basic b, ty => ty = b
  | .compound (.array _ n), .array _ m => m = n
  | .compound (.reference a _), .reference b _ => b = a
  | .compound (.function _ _), .function _ _ => True
  | .compound _, _ => False

namespace TypeRegistry

/-- The type that an entry stands for, if its parts have types. -/
def typeFor? (t : TypeRegistry) (e : TypeEntry) : Option Ty :=
  e.type? t.get?

/-- The number stands for the type of the entry. -/
def Holds (t : TypeRegistry) (id : TypeId) (e : TypeEntry) : Prop :=
  ∃ ty, t.get? id = some ty ∧ t.typeFor? e = some ty

/-- Asks for the number of an entry, which is given the next one unless it has one. -/
def call (t : TypeRegistry) : TypeEntry → Option (TypeId × TypeRegistry)
  | .basic ty => ((t.intern ty).idOf? ty).map fun id => (id, t.intern ty)
  | .compound shape => t.add? shape

def run (t : TypeRegistry) : List TypeEntry → Option (List TypeId × TypeRegistry)
  | [] => some ([], t)
  | e :: es => (t.call e).bind fun r => (r.2.run es).map fun q => (r.1 :: q.1, q.2)

end TypeRegistry

/-! ### Entries and types -/

lemma mapM_eq_some_iff {f : α → Option β} {as : List α} {bs : List β} :
    as.mapM f = some bs ↔ Forall₂ (fun a b => f a = some b) as bs := by
  induction as generalizing bs with
  | nil => simp [mapM_nil, eq_comm]
  | cons a as ih =>
    rw [mapM_cons, forall₂_cons_left_iff]
    constructor
    · intro h
      obtain ⟨b,hb,h⟩ := bind_eq_some_iff.1 h
      obtain ⟨bs',hbs,h⟩ := bind_eq_some_iff.1 h
      cases h
      exact ⟨b,bs',hb,ih.1 hbs,rfl⟩
    · rintro ⟨b,bs',hb,hbs,rfl⟩
      simp [hb, ih.2 hbs]

lemma exists_mapM {f : α → Option β} {as : List α} (h : ∀ a ∈ as, ∃ b, f a = some b) : ∃ bs, as.mapM f = some bs := by
  induction as with
  | nil => exact ⟨[],rfl⟩
  | cons a as ih =>
    obtain ⟨b,hb⟩ := h a (.head _)
    obtain ⟨bs,hbs⟩ := ih fun a' ha' => h a' (mem_cons_of_mem a ha')
    exact ⟨b :: bs,by simp [hb, hbs]⟩

lemma exists_of_forall₂ {R : α → β → Prop} {as : List α} {bs : List β} (h : Forall₂ R as bs)
    {a : α} (ha : a ∈ as) : ∃ b ∈ bs, R a b := by
  induction h with
  | nil => cases ha
  | @cons a' b as bs hab _ ih =>
    obtain rfl | ha := mem_cons.1 ha
    · exact ⟨b,(.head _),hab⟩
    · obtain ⟨b',hb',hab'⟩ := ih ha
      exact ⟨b',mem_cons_of_mem b hb',hab'⟩

lemma Ty.parts_of_mem_basic {ty : Ty} (h : ty ∈ TypeRegistry.basic) : ty.parts = [] := by
  cases ty with
  | array | reference | function => simp [TypeRegistry.basic] at h
  | _ => rfl

namespace TypeEntry

variable {f g : TypeId → Option Ty} {e e' : TypeEntry} {ty : Ty}

lemma type?_eq_some_iff : e.type? f = some ty ↔ e.Alike ty ∧ Forall₂ (fun p u => f p = some u) e.parts ty.parts := by
  cases e with
  | basic b =>
    have hparts := Ty.parts_of_mem_basic b.2
    constructor
    · rintro ⟨rfl⟩
      exact ⟨rfl,hparts ▸ .nil⟩
    · rintro ⟨rfl,-⟩
      rfl
  | compound shape =>
    cases shape <;> cases ty <;>
      simp [type?, TypeShape.type?, Alike, parts, TypeShape.parts, Ty.parts, bind_eq_some_iff, mapM_eq_some_iff, and_comm]
    all_goals exact fun _ => eq_comm

lemma type?_mono (h : ∀ p ∈ e.parts, ∀ u, f p = some u → g p = some u) (hf : e.type? f = some ty) : e.type? g = some ty := by
  rw [type?_eq_some_iff] at hf ⊢
  have hall := (forall₂_and_left _ _).2 ⟨h,hf.2⟩
  exact ⟨hf.1,hall.imp fun p u hpu => hpu.1 u hpu.2⟩

lemma exists_type? (h : ∀ p ∈ e.parts, ∃ u, f p = some u) : ∃ ty, e.type? f = some ty := by
  cases e with
  | basic ty => exact ⟨ty,rfl⟩
  | compound shape =>
    cases shape with
    | array element size =>
      obtain ⟨u,hu⟩ := h element (.head _)
      exact ⟨.array u size,by simp [type?, TypeShape.type?, hu]⟩
    | reference mutable target =>
      obtain ⟨u,hu⟩ := h target (.head _)
      exact ⟨.reference mutable u,by simp [type?, TypeShape.type?, hu]⟩
    | function params ret =>
      obtain ⟨u,hu⟩ := h ret (.head _)
      obtain ⟨us,hus⟩ := exists_mapM fun p hp => h p (mem_cons_of_mem ret hp)
      exact ⟨.function us u,by simp [type?, TypeShape.type?, hu, hus]⟩

lemma exists_part (h : e.type? f = some ty) (hp : p ∈ e.parts) : ∃ u ∈ ty.parts, f p = some u :=
  exists_of_forall₂ (type?_eq_some_iff.1 h).2 hp

lemma exists_number (h : e.type? f = some ty) {u : Ty} (hu : u ∈ ty.parts) : ∃ p ∈ e.parts, f p = some u :=
  exists_of_forall₂ (Forall₂.flip (type?_eq_some_iff.1 h).2) hu

lemma eq_of_alike (h : e.Alike ty) (h' : e'.Alike ty) (hparts : e.parts = e'.parts) : e = e' := by
  rcases e with ⟨b,hb⟩ | _ | _ | _ <;> rcases e' with ⟨b',hb'⟩ | _ | _ | _ <;> cases ty <;>
    simp_all [Alike, parts, TypeShape.parts, TypeRegistry.basic]

/-- Entries of one type are equal, if no type has two numbers. -/
theorem type?_injective (hf : ∀ p q u, f p = some u → f q = some u → p = q) (h : e.type? f = some ty)
    (h' : e'.type? f = some ty) : e = e' := by
  rw [type?_eq_some_iff] at h h'
  refine eq_of_alike h.1 h'.1 ?_
  obtain ⟨-,hall⟩ := h
  obtain ⟨-,hall'⟩ := h'
  generalize e'.parts = ps', e.parts = ps, ty.parts = us at hall hall'
  induction hall generalizing ps' with
  | nil => cases hall' with | nil => rfl
  | cons hp _ ih => cases hall' with | cons hp' hps' => rw [hf _ _ _ hp hp', ih _ hps']

end TypeEntry

namespace TypeRegistry

/-! ### Parts are numbered first -/

/-- No type has two numbers, and the parts of a type were numbered before it. -/
structure Layered (t : TypeRegistry) : Prop where
  distinct : ∀ {i j : TypeId} {ty : Ty}, t.get? i = some ty → t.get? j = some ty → i = j
  parts : ∀ {id : TypeId} {ty : Ty}, t.get? id = some ty → ∀ u ∈ ty.parts, ∃ p < id, t.get? p = some u

variable {t t' u : TypeRegistry} {id : TypeId} {ty v : Ty} {e : TypeEntry}

lemma lt_of_get? (h : t.get? id = some ty) : id < t.size :=
  (Array.getElem?_eq_some_iff.1 h).1

lemma exists_get? (h : id < t.size) : ∃ ty, t.get? id = some ty :=
  have hlt : id < t.types.size := h
  ⟨t.types[id],Array.getElem?_eq_getElem hlt⟩

lemma mem_types_iff : ty ∈ t.types ↔ ∃ id, t.get? id = some ty :=
  Array.mem_iff_getElem?

/-- Every type of `t` has the same number in `u`. -/
def Extends (t u : TypeRegistry) : Prop :=
  ∀ id ty, t.get? id = some ty → u.get? id = some ty

lemma extends_intern (t : TypeRegistry) (ty : Ty) : t.Extends (t.intern ty) :=
  fun _ _ h => (get?_intern ty (lt_of_get? h)).trans h

lemma get?_intern_eq_some (h : (t.intern ty).get? id = some v) : t.get? id = some v ∨ v = ty ∧ id = t.size ∧ ty ∉ t.types := by
  by_cases hmem : ty ∈ t.types
  · rw [intern_of_mem hmem] at h
    exact .inl h
  · rw [intern_of_not_mem hmem, get?, Array.getElem?_push] at h
    split at h
    · next hid => exact .inr ⟨(Option.some.inj h).symm,hid,hmem⟩
    · exact .inl h

namespace Layered

section

variable (h : t.Layered)
include h

lemma intern (hparts : ∀ u ∈ ty.parts, ∃ p, t.get? p = some u) : (t.intern ty).Layered where
  distinct {i j v} hi hj := by
    obtain hi' | ⟨rfl,hi',hnew⟩ := get?_intern_eq_some hi
    · obtain hj' | ⟨rfl,-,hnew⟩ := get?_intern_eq_some hj
      · exact h.distinct hi' hj'
      · exact absurd (mem_types_iff.2 ⟨i,hi'⟩) hnew
    · obtain hj' | ⟨-,hj',-⟩ := get?_intern_eq_some hj
      · exact absurd (mem_types_iff.2 ⟨j,hj'⟩) hnew
      · rw [hi', hj']
  parts {id v} hv u hu := by
    obtain hv | ⟨rfl,rfl,-⟩ := get?_intern_eq_some hv
    · obtain ⟨p,hp,hpu⟩ := h.parts hv u hu
      exact ⟨p,hp,extends_intern t ty p u hpu⟩
    · obtain ⟨p,hpu⟩ := hparts u hu
      exact ⟨p,lt_of_get? hpu,extends_intern t v p u hpu⟩

/-- Numbers and types are one for one. -/
theorem idOf?_eq_some_iff : t.idOf? ty = some id ↔ t.get? id = some ty := by
  have hfound : ∀ {i}, t.idOf? ty = some i → t.get? i = some ty := by
    intro i hi
    obtain ⟨⟨types⟩⟩ := t
    rw [idOf?, idxOf?_toArray, idxOf?_eq_some_iff] at hi
    obtain ⟨hlt,heq,-⟩ := hi
    rw [get?, getElem?_toArray]
    exact List.getElem?_eq_some_iff.2 ⟨hlt,heq⟩
  refine ⟨hfound,fun hget => ?_⟩
  have hmem : (t.idOf? ty).isSome := Array.isSome_idxOf?.2 (mem_types_iff.2 ⟨id,hget⟩)
  obtain ⟨i,hi⟩ := isSome_iff_exists.1 hmem
  rw [hi, h.distinct (hfound hi) hget]

lemma holds_unique {e' : TypeEntry} (he : t.Holds id e) (he' : t.Holds id e') : e = e' := by
  obtain ⟨ty,hty,htype⟩ := he
  obtain ⟨ty',hty',htype'⟩ := he'
  obtain rfl := mem_unique hty hty'
  exact TypeEntry.type?_injective (fun _ _ _ => h.distinct) htype htype'

lemma lt_of_holds (he : t.Holds id e) (hp : p ∈ e.parts) : p < id := by
  obtain ⟨ty,hty,hentry⟩ := he
  obtain ⟨u,hu,hpu⟩ := TypeEntry.exists_part hentry hp
  obtain ⟨q,hlt,hqu⟩ := h.parts hty u hu
  rwa [h.distinct hpu hqu]

end

end Layered

/-! ### Asking for types -/

lemma typeOf?_eq (t : TypeRegistry) (shape : TypeShape) : t.typeOf? shape = shape.type? t.get? := by
  cases shape <;> simp only [typeOf?, TypeShape.type?, map_eq_bind] <;> rfl

lemma call_eq (t : TypeRegistry) (e : TypeEntry) :
    t.call e = (t.typeFor? e).bind fun ty => ((t.intern ty).idOf? ty).map fun id => (id, t.intern ty) := by
  cases e with
  | basic ty => rfl
  | compound shape =>
    simp only [call, add?, typeOf?_eq, typeFor?, TypeEntry.type?, map_eq_bind]
    rfl

lemma call_eq_some (h : t.call e = some (id, t')) :
    ∃ ty, t.typeFor? e = some ty ∧ t' = t.intern ty ∧ t'.idOf? ty = some id := by
  rw [call_eq] at h
  obtain ⟨ty,hty,h⟩ := bind_eq_some_iff.1 h
  obtain ⟨i,hi,h⟩ := map_eq_some_iff.1 h
  cases h
  exact ⟨ty,hty,rfl,hi⟩

lemma Layered.intern_entry (h : t.Layered) (hty : t.typeFor? e = some ty) : (t.intern ty).Layered :=
  h.intern fun _ hu =>
    have ⟨p,_,hp⟩ := TypeEntry.exists_number hty hu
    ⟨p,hp⟩

lemma Layered.call (h : t.Layered) (hcall : t.call e = some (id, t')) : t'.Layered := by
  obtain ⟨ty,hty,rfl,-⟩ := call_eq_some hcall
  exact h.intern_entry hty

lemma extends_call (hcall : t.call e = some (id, t')) : t.Extends t' := by
  obtain ⟨ty,-,rfl,-⟩ := call_eq_some hcall
  exact extends_intern t ty

lemma Layered.run (h : t.Layered) {es : List TypeEntry} {ids : List TypeId} (hrun : t.run es = some (ids, u)) :
    u.Layered ∧ t.Extends u := by
  induction es generalizing t ids with
  | nil =>
    cases hrun
    exact ⟨h,fun _ _ hget => hget⟩
  | cons e es ih =>
    obtain ⟨r,hr,hrun⟩ := bind_eq_some_iff.1 hrun
    obtain ⟨q,hq,hrun⟩ := map_eq_some_iff.1 hrun
    cases hrun
    obtain ⟨hu,hext⟩ := ih (h.call hr) hq
    exact ⟨hu,fun id ty hget => hext id ty (extends_call hr id ty hget)⟩

lemma Holds.extends (h : t.Holds id e) (hext : t.Extends u) : u.Holds id e := by
  obtain ⟨ty,hty,hentry⟩ := h
  exact ⟨ty,hext id ty hty,TypeEntry.type?_mono (fun p _ v hv => hext p v hv) hentry⟩

/-- Only the new number holds something new. -/
theorem Layered.holds_iff_of_ne (h' : t'.Layered) (hext : t.Extends t') (hsize : t'.size = t.size + 1)
    (hother : ∀ i, i ≠ t.size → t'.get? i = t.get? i) (hid : id ≠ t.size) : t'.Holds id e ↔ t.Holds id e := by
  refine ⟨?_,fun he => he.extends hext⟩
  rintro ⟨ty,hty,htype⟩
  refine ⟨ty,hother id hid ▸ hty,TypeEntry.type?_mono (fun p hp v hv => ?_) htype⟩
  have hlt : p < id := h'.lt_of_holds ⟨ty,hty,htype⟩ hp
  have hid' : id < t'.size := lt_of_get? hty
  have hle : id ≤ t.size := Nat.le_of_lt_succ (Nat.lt_of_lt_of_eq hid' hsize)
  rwa [← hother p (Nat.ne_of_lt (Nat.lt_of_lt_of_le hlt hle))]

/-- A call succeeds exactly if the parts of what is asked for have numbers. -/
theorem Layered.call_isSome_iff (h : t.Layered) : (t.call e).isSome ↔ ∀ p ∈ e.parts, p < t.size := by
  constructor
  · intro hcall p hp
    obtain ⟨⟨id,t'⟩,hcall⟩ := isSome_iff_exists.1 hcall
    obtain ⟨ty,hty,-,-⟩ := call_eq_some hcall
    obtain ⟨u,-,hu⟩ := TypeEntry.exists_part hty hp
    exact lt_of_get? hu
  · intro hparts
    obtain ⟨ty,hty⟩ : ∃ ty, t.typeFor? e = some ty := TypeEntry.exists_type? fun p hp => exists_get? (hparts p hp)
    obtain ⟨id,hid⟩ := mem_types_iff.1 (mem_intern t ty)
    have hnumber := (h.intern_entry hty).idOf?_eq_some_iff.2 hid
    rw [call_eq, hty, bind_some, hnumber]
    rfl

/-- A call answers with the number of the entry that was asked for: the one it has, or the next one. -/
theorem Layered.call_answer (h : t.Layered) (hcall : t.call e = some (id, t')) :
    t'.Holds id e ∧ (t' = t ∨ (∀ i, ¬t.Holds i e) ∧ id = t.size ∧ t'.size = t.size + 1 ∧ ∀ i, i ≠ id → t'.get? i = t.get? i) := by
  obtain ⟨ty,hty,rfl,hid⟩ := call_eq_some hcall
  have hget := (h.intern_entry hty).idOf?_eq_some_iff.1 hid
  have hext := extends_intern t ty
  refine ⟨⟨ty,hget,TypeEntry.type?_mono (fun p _ v hv => hext p v hv) hty⟩,?_⟩
  obtain hold | ⟨-,rfl,hmem⟩ := get?_intern_eq_some hget
  · exact .inl (intern_of_mem (mem_types_iff.2 ⟨id,hold⟩))
  · refine .inr ⟨?_,rfl,?_,fun i hi => ?_⟩
    · rintro i ⟨v,hv,hvty⟩
      obtain rfl : v = ty := mem_unique hvty hty
      exact hmem (mem_types_iff.2 ⟨i,hv⟩)
    · rw [intern_of_not_mem hmem]
      exact Array.size_push _
    · rw [intern_of_not_mem hmem, get?, Array.getElem?_push]
      exact if_neg hi

/-- The basic types are given the first numbers. -/
theorem run_empty : run ⟨#[]⟩ TypeTable.basicEntries = some (range 11, initial) := by
  decide +kernel

lemma layered_initial : initial.Layered :=
  (Layered.run ⟨by simp [get?],by simp [get?]⟩ run_empty).1

end TypeRegistry

end Opal
