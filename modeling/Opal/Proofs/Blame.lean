import Mathlib.Data.List.Perm.Basic
import Mathlib.Data.List.Nodup
import Mathlib.Logic.Relation

/-!
# Which constants are blamed

The constants that fail fall into groups, in each of which the waiting leads to one that fails by itself or into one circle. A
run blames one constant of each group; which one depends on the run, but the codes do not.
-/

namespace Opal

open List Option

/-- Why the constants without a value have none. -/
structure Causes where
  /-- The constant without a value that a constant waits for, unless it fails by itself. -/
  waits : String → Option String
  /-- The codes of the errors of a constant that fails by itself. -/
  own : String → List String

namespace Causes

variable {C : Causes} {x y z u : String}

/-- The constants that a constant waits for lead to another one. -/
def Leads (C : Causes) : String → String → Prop :=
  Relation.ReflTransGen fun x y => C.waits x = some y

lemma Leads.refl (x : String) : C.Leads x x :=
  Relation.ReflTransGen.refl

lemma Leads.trans (h : C.Leads x y) (h' : C.Leads y z) : C.Leads x z :=
  Relation.ReflTransGen.trans h h'

lemma Leads.of_waits (h : C.waits x = some y) : C.Leads x y :=
  Relation.ReflTransGen.single h

lemma Leads.total (h : C.Leads x y) (h' : C.Leads x z) : C.Leads y z ∨ C.Leads z y := by
  refine Relation.ReflTransGen.total_of_right_unique ?_ h h'
  intro a b c hb hc
  exact mem_unique hb hc

lemma Leads.eq_of_own (h : C.Leads x y) (hx : C.waits x = none) : y = x := by
  rcases Relation.ReflTransGen.cases_head h with rfl | ⟨z,hz,-⟩
  · rfl
  · cases hx.symm.trans hz

lemma Leads.kept {F : String → Prop} (hF : ∀ x y, F x → C.waits x = some y → F y) (h : C.Leads x y) (hx : F x) : F y := by
  induction h with
  | refl => exact hx
  | tail _ hy ih => exact hF _ _ ih hy

/-! ## Groups -/

/-- The constants belong to one group. -/
def Joined (C : Causes) (x y : String) : Prop :=
  ∃ z, C.Leads x z ∧ C.Leads y z

lemma Leads.joined (h : C.Leads x y) : C.Joined x y :=
  ⟨y,h,.refl y⟩

lemma Joined.symm (h : C.Joined x y) : C.Joined y x := by
  obtain ⟨z,hx,hy⟩ := h
  exact ⟨z,hy,hx⟩

lemma Joined.trans (h : C.Joined x y) (h' : C.Joined y z) : C.Joined x z := by
  obtain ⟨a,hxa,hya⟩ := h
  obtain ⟨b,hyb,hzb⟩ := h'
  rcases hya.total hyb with hab | hba
  · exact ⟨b,hxa.trans hab,hzb⟩
  · exact ⟨a,hxa,hzb.trans hba⟩

/-- The groups. -/
def groups (C : Causes) : Setoid String where
  r := C.Joined
  iseqv := ⟨fun x => (Leads.refl x).joined,Joined.symm,Joined.trans⟩

open Classical in
/-- The codes of the errors of a group: those of the constant that fails by itself, or that of a circle. -/
noncomputable def codes (C : Causes) (x : String) : List String :=
  if h : ∃ y, C.Leads x y ∧ C.waits y = none then C.own h.choose else ["CircularConstantDefinition"]

lemma codes_of_own (h : C.Leads x y) (hy : C.waits y = none) : C.codes x = C.own y := by
  have hex : ∃ y, C.Leads x y ∧ C.waits y = none := ⟨y,h,hy⟩
  obtain ⟨hz,hnone⟩ := hex.choose_spec
  rw [codes, dif_pos hex]
  rcases h.total hz with hyz | hzy
  · rw [hyz.eq_of_own hy]
  · rw [hzy.eq_of_own hnone]

lemma codes_of_circular (h : ∀ y, C.Leads x y → C.waits y ≠ none) : C.codes x = ["CircularConstantDefinition"] :=
  dif_neg fun ⟨y,hy,hnone⟩ => h y hy hnone

lemma Leads.codes_eq (h : C.Leads x y) : C.codes x = C.codes y := by
  by_cases hend : ∃ z, C.Leads y z ∧ C.waits z = none
  · obtain ⟨z,hz,hnone⟩ := hend
    rw [codes_of_own hz hnone, codes_of_own (h.trans hz) hnone]
  · have hy (z) (hz : C.Leads y z) : C.waits z ≠ none := fun hnone => hend ⟨z,hz,hnone⟩
    rw [codes_of_circular hy, codes_of_circular fun z hz hnone => ?_]
    rcases h.total hz with hyz | hzy
    · exact hy z hyz hnone
    · obtain rfl := hzy.eq_of_own hnone
      exact hy y (.refl y) hnone

lemma Joined.codes_eq (h : C.Joined x y) : C.codes x = C.codes y := by
  obtain ⟨z,hx,hy⟩ := h
  rw [hx.codes_eq, hy.codes_eq]

/-! ## Culprits -/

/-- The list holds one constant of each group of constants that failed. -/
structure Culprits (C : Causes) (F : String → Prop) (R : List String) : Prop where
  failed : ∀ x ∈ R, F x
  covers : ∀ x, F x → ∃ r ∈ R, C.Joined x r
  apart : R.Pairwise fun x y => ¬ C.Joined x y

variable {F : String → Prop} {R R' : List String}

lemma culprits_nil (h : ∀ x, ¬ F x) : C.Culprits F [] :=
  ⟨nofun,fun x hx => absurd hx (h x),.nil⟩

lemma Culprits.congr {F' : String → Prop} (h : C.Culprits F R) (hF : ∀ x, F' x ↔ F x) : C.Culprits F' R :=
  ⟨fun x hx => (hF x).2 (h.failed x hx),fun x hx => h.covers x ((hF x).1 hx),h.apart⟩

lemma Culprits.nodup (h : C.Culprits F R) : (R.map (Quotient.mk C.groups)).Nodup :=
  pairwise_map.2 (h.apart.imp fun hne heq => hne (Quotient.exact heq))

lemma Culprits.mem_groups_iff (h : C.Culprits F R) (q : Quotient C.groups) :
    q ∈ R.map (Quotient.mk C.groups) ↔ ∃ x, F x ∧ Quotient.mk C.groups x = q := by
  rw [List.mem_map]
  constructor
  · rintro ⟨x,hx,rfl⟩
    exact ⟨x,h.failed x hx,rfl⟩
  · rintro ⟨x,hx,rfl⟩
    obtain ⟨r,hr,hjoined⟩ := h.covers x hx
    exact ⟨r,hr,Quotient.sound hjoined.symm⟩

lemma flatMap_codes (C : Causes) (R : List String) : R.flatMap C.codes = (R.map (Quotient.mk C.groups)).flatMap
      (Quotient.lift C.codes fun _ _ h => Joined.codes_eq h) := by
  rw [flatMap_map]
  rfl

lemma Culprits.perm (h : C.Culprits F R) (h' : C.Culprits F R') : (R.flatMap C.codes).Perm (R'.flatMap C.codes) := by
  rw [flatMap_codes, flatMap_codes]
  refine List.Perm.flatMap_right _ ((perm_ext_iff_of_nodup h.nodup h'.nodup).2 fun q => ?_)
  rw [h.mem_groups_iff, h'.mem_groups_iff]

/-! ## Runs -/

/-- A run finds that the first constant of a list has no value, with those after it in progress, each waiting for the
one before it. It gives the constants that fail on the way, and the codes of the errors. -/
inductive Fails (C : Causes) (F : String → Prop) : List String → List String → List String → Prop where
  /-- It fails by itself. -/
  | own {x : String} {P : List String} (h : C.waits x = none) : Fails C F (x :: P) [x] (C.own x)
  /-- It waits for a constant that failed before. -/
  | known {x y : String} {P : List String} (h : C.waits x = some y) (hy : F y) :
    Fails C F (x :: P) [x] []
  /-- It waits for a constant in progress. -/
  | circular {x y : String} {P : List String} (h : C.waits x = some y) (hy : y ∈ x :: P) :
    Fails C F (x :: P) [x] ["CircularConstantDefinition"]
  /-- It waits for a constant that is found to have no value. -/
  | waits {x y : String} {P l codes : List String} (h : C.waits x = some y) (hy : ¬ F y)
    (hfails : Fails C F (y :: x :: P) l codes) : Fails C F (x :: P) (x :: l) codes

variable {P l codes : List String}

section

variable (h : C.Fails F (x :: P) l codes)
include h

lemma Fails.mem : x ∈ l := by
  cases h with
  | _ => exact (.head _)

lemma Fails.leads : ∀ y ∈ l, C.Leads x y := by
  generalize hS : x :: P = S at h
  induction h generalizing x P with
  | own | known | circular =>
    obtain ⟨rfl,-⟩ := cons.inj hS
    rintro y hy
    rw [mem_singleton.1 hy]
    exact .refl x
  | waits h hy hfails ih =>
    obtain ⟨rfl,rfl⟩ := cons.inj hS
    intro z hz
    rcases mem_cons.1 hz with rfl | hz
    · exact .refl _
    · exact (Leads.of_waits h).trans (ih rfl z hz)

/-- What a constant waits for that failed on the way failed before, or on the way too, or is in progress. -/
theorem Fails.closed : ∀ y ∈ l, ∀ z, C.waits y = some z → F z ∨ z ∈ l ∨ z ∈ x :: P := by
  generalize hS : x :: P = S at h
  induction h generalizing x P with
  | own h =>
    intro y hy z hz
    rw [mem_singleton.1 hy] at hz
    cases h.symm.trans hz
  | known h hy =>
    intro y hmem z hz
    rw [mem_singleton.1 hmem] at hz
    obtain rfl := mem_unique h hz
    exact .inl hy
  | circular h hy =>
    intro y hmem z hz
    rw [mem_singleton.1 hmem] at hz
    obtain rfl := mem_unique h hz
    exact .inr (.inr hy)
  | @waits a b P' l' codes' h hy hfails ih =>
    intro y hmem z hz
    rcases mem_cons.1 hmem with rfl | hmem
    · obtain rfl := mem_unique h hz
      exact .inr (.inl (.tail _ hfails.mem))
    · rcases ih rfl y hmem z hz with hF | hl | hstack
      · exact .inl hF
      · exact .inr (.inl (.tail _ hl))
      · rcases mem_cons.1 hstack with rfl | hstack
        · exact .inr (.inl (.tail _ hfails.mem))
        · exact .inr (.inr hstack)

end

/-- The constants in progress lead to the first one of them, and so they go on in a circle if that one waits for one
of them. -/
theorem leads_mem_of_chain {S : List String} (hchain : S.IsChain fun a b => C.waits b = some a)
    (hhead : ∀ a ∈ S.head?, ∃ b ∈ S, C.waits a = some b) (hx : x ∈ S) (h : C.Leads x y) : y ∈ S ∧ C.waits y ≠ none := by
  have hnext (a) (ha : a ∈ S) : ∃ b ∈ S, C.waits a = some b := by
    obtain ⟨i,hi,rfl⟩ := mem_iff_getElem.1 ha
    cases i with
    | zero => exact hhead _ (by rw [head?_eq_getElem?, getElem?_eq_getElem hi]; rfl)
    | succ i => exact ⟨_,getElem_mem _,isChain_iff_getElem.1 hchain i hi⟩
  have hmem : y ∈ S := by
    refine Leads.kept (F := (· ∈ S)) (fun a b ha hab => ?_) h hx
    obtain ⟨c,hc,hac⟩ := hnext a ha
    rwa [mem_unique hab hac]
  obtain ⟨b,-,hb⟩ := hnext y hmem
  exact ⟨hmem,by rw [hb]; nofun⟩

/-- A constant belongs to a group of which something failed before, and nothing is reported; or it belongs to another
group, and the error of that group is reported. -/
theorem Fails.outcome (hF : ∀ x y, F x → C.waits x = some y → F y)
    (h : C.Fails F (x :: P) l codes) (hchain : (x :: P).IsChain fun a b => C.waits b = some a) (hnew : ∀ p ∈ x :: P, ¬ F p) :
    (codes = [] ∧ ∃ u, F u ∧ C.Leads x u) ∨ (codes = C.codes x ∧ ∀ u, F u → ¬ C.Joined x u) := by
  generalize hS : x :: P = S at h hchain hnew
  induction h generalizing x P with
  | own h =>
    obtain ⟨rfl,rfl⟩ := cons.inj hS
    refine .inr ⟨(codes_of_own (.refl x) h).symm,?_⟩
    rintro u hu ⟨z,hxz,huz⟩
    rw [hxz.eq_of_own h] at huz
    exact hnew x (.head _) (huz.kept hF hu)
  | @known _ y _ h hy =>
    obtain ⟨rfl,rfl⟩ := cons.inj hS
    exact .inl ⟨rfl,y,hy,.of_waits h⟩
  | @circular _ y _ h hy =>
    obtain ⟨rfl,rfl⟩ := cons.inj hS
    have hcircle {z : String} (hz : C.Leads x z) := leads_mem_of_chain hchain
      (fun a ha => ⟨y,hy,by rwa [← Option.some.inj ha]⟩) (.head _) hz
    refine .inr ⟨(codes_of_circular fun z hz => (hcircle hz).2).symm,?_⟩
    rintro u hu ⟨z,hxz,huz⟩
    exact hnew z (hcircle hxz).1 (huz.kept hF hu)
  | @waits _ y _ _ _ h hy hfails ih =>
    obtain ⟨rfl,rfl⟩ := cons.inj hS
    have hxy : C.Leads x y := .of_waits h
    rcases ih rfl (hchain.cons_cons h) (forall_mem_cons.2 ⟨hy,hnew⟩) with
      ⟨hcodes,u,hu,hyu⟩ | ⟨hcodes,hapart⟩
    · exact .inl ⟨hcodes,u,hu,hxy.trans hyu⟩
    · exact .inr ⟨hcodes.trans hxy.codes_eq.symm,fun u hu hjoined => hapart u hu (hxy.joined.symm.trans hjoined)⟩

/-- One more constant is found to have no value, while none is in progress. -/
theorem Culprits.fails (hR : C.Culprits F R) (hF : ∀ x y, F x → C.waits x = some y → F y)
    (hx : ¬ F x) (h : C.Fails F [x] l codes) : (∃ R', C.Culprits (fun y => F y ∨ y ∈ l) R' ∧
      (R'.flatMap C.codes).Perm (R.flatMap C.codes ++ codes)) ∧ ∀ y z, F y ∨ y ∈ l → C.waits y = some z → F z ∨ z ∈ l := by
  refine ⟨?_,?_⟩
  · rcases h.outcome hF (.singleton x) (by simpa using hx) with
      ⟨rfl,u,hu,hxu⟩ | ⟨rfl,hapart⟩
    · refine ⟨R,⟨fun y hy => .inl (hR.failed y hy),?_,hR.apart⟩,by rw [append_nil]⟩
      rintro y (hy | hy)
      · exact hR.covers y hy
      · obtain ⟨r,hr,hjoined⟩ := hR.covers u hu
        exact ⟨r,hr,((h.leads y hy).joined.symm.trans hxu.joined).trans hjoined⟩
    · refine ⟨x :: R,⟨?_,?_,?_⟩,?_⟩
      · exact forall_mem_cons.2 ⟨.inr h.mem,fun y hy => .inl (hR.failed y hy)⟩
      · rintro y (hy | hy)
        · obtain ⟨r,hr,hjoined⟩ := hR.covers y hy
          exact ⟨r,.tail _ hr,hjoined⟩
        · exact ⟨x,(.head _),(h.leads y hy).joined.symm⟩
      · exact pairwise_cons.2 ⟨fun r hr => hapart r (hR.failed r hr),hR.apart⟩
      · rw [flatMap_cons]
        exact perm_append_comm
  · rintro y z (hy | hy) hz
    · exact .inl (hF y z hy hz)
    · rcases h.closed y hy z hz with hz | hz | hz
      · exact .inl hz
      · exact .inr hz
      · rw [mem_singleton.1 hz]
        exact .inr h.mem

end Causes

end Opal
