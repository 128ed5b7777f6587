import Opal.Proofs.ParsedReadings

/-!
# Trees in a part of the source

A parsed tree stands in the source, its parts stand inside of it, and so do the spans that the parts carry.
-/

namespace Opal

open List

/-- The span lies inside the other one. -/
def Span.Within (a b : Span) : Prop :=
  b.start ≤ a.start ∧ a.stop ≤ b.stop

lemma Span.Within.refl (a : Span) : a.Within a :=
  ⟨le_rfl,le_rfl⟩

lemma Span.Within.trans {a b c : Span} (h : a.Within b) (h' : b.Within c) : a.Within c :=
  ⟨h'.1.trans h.1,h.2.trans h'.2⟩

/-- A token sequence of the language stands inside the region, one token after the other. -/
def PlacedIn (region : Span) (l : Language Token) : Prop :=
  ∃ ts ∈ l, InOrder ts ∧ ∀ t ∈ ts, t.span.Within region

namespace PlacedIn

variable {region span : Span} {l l1 l2 : Language Token} {ls : List (Language Token)}

lemma left (h : PlacedIn region (l1 * l2)) : PlacedIn region l1 := by
  obtain ⟨ts,hts,horder,hwithin⟩ := h
  obtain ⟨ts1,hts1,ts2,hts2,rfl⟩ := Language.mem_mul.1 hts
  exact ⟨ts1,hts1,horder.sublist (sublist_append_left _ _),fun t ht => hwithin t (mem_append_left _ ht)⟩

lemma right (h : PlacedIn region (l1 * l2)) : PlacedIn region l2 := by
  obtain ⟨ts,hts,horder,hwithin⟩ := h
  obtain ⟨ts1,hts1,ts2,hts2,rfl⟩ := Language.mem_mul.1 hts
  exact ⟨ts2,hts2,horder.sublist (sublist_append_right _ _),fun t ht => hwithin t (mem_append_right _ ht)⟩

section

variable (h : PlacedIn region (covering span l))
include h

lemma covered : PlacedIn region l := by
  obtain ⟨ts,hts,hplaced⟩ := h
  exact ⟨ts,hts.1,hplaced⟩

lemma within : span.Within region := by
  obtain ⟨ts,⟨-,t,u,ht,hu,rfl⟩,-,hwithin⟩ := h
  exact ⟨(hwithin t (mem_of_head? ht)).1,(hwithin u (mem_of_getLast? hu)).2⟩

lemma inside : PlacedIn span (covering span l) := by
  obtain ⟨ts,hts,horder,-⟩ := h
  obtain ⟨t,u,ht,hu,hspan⟩ := hts.2
  refine ⟨ts,hts,horder,fun x hx => ?_⟩
  rw [hspan]
  refine ⟨?_,horder.stop_le_last hx hu⟩
  obtain ⟨rest,rfl⟩ := head?_eq_some_iff.1 ht
  exact horder.head_start_le hx

end

lemma tokenAt {kind : Kind} (h : PlacedIn region (tokenAt kind span)) : span.Within region := by
  obtain ⟨ts,hts,-,hwithin⟩ := h
  obtain rfl : ts = [⟨kind,span⟩] := hts
  exact hwithin _ (.head _)

lemma listed (h : PlacedIn region (listed ls)) (hl : l ∈ ls) : PlacedIn region l := by
  induction ls with
  | nil => exact absurd hl not_mem_nil
  | cons l' ls ih =>
    cases ls with
    | nil =>
      obtain rfl := mem_singleton.1 hl
      exact h.left
    | cons l'' ls =>
      obtain rfl | hl := mem_cons.1 hl
      · exact h.left
      · exact ih h.right.right hl

lemma inParens (h : PlacedIn region (inParens ls)) (hl : l ∈ ls) : PlacedIn region l :=
  h.right.left.listed hl

lemma inBrackets (h : PlacedIn region (inBrackets ls)) (hl : l ∈ ls) : PlacedIn region l :=
  h.right.left.listed hl

lemma prod (h : PlacedIn region ls.prod) (hl : l ∈ ls) : PlacedIn region l := by
  induction ls with
  | nil => exact absurd hl not_mem_nil
  | cons l' ls ih =>
    obtain rfl | hl := mem_cons.1 hl
    · exact h.left
    · exact ih h.right hl

end PlacedIn

lemma Module.placed_of_parse {source : String} {m : Module} (h : Module.parse source = .ok m) :
    ∃ region, ∀ d ∈ m.decls, PlacedIn region d.readings := by
  have hts := (m.mem_readings_of_parse h).1
  have horder := (Cursor.sane_ofSource source).order
  generalize (Cursor.ofSource source).tokens = ts at hts horder
  rw [Module.readings, declReadings_eq_prod] at hts
  refine ⟨⟨0,(ts.getLast?.map (·.span.stop)).getD 0⟩,fun d hd => ?_⟩
  refine PlacedIn.prod ⟨ts,hts,horder,fun t ht => ⟨Nat.zero_le _,?_⟩⟩ (mem_map_of_mem hd)
  cases hlast : ts.getLast? with
  | none => exact absurd ht (getLast?_eq_none_iff.1 hlast ▸ not_mem_nil)
  | some u => exact horder.stop_le_last ht hlast

end Opal
