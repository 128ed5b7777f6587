import Opal.Proofs.DisplayedTypes

/-!
# Types have texts of their own

No two types have one text, and no type has the word for a sort of types. The first character tells the form of the type.
-/

namespace Opal

open List Ty

variable {t u : Ty} {x y : List Char}

/-! ## The form of a displayed type -/

/-- The first character of a displayed type, where all integer types count as signed. -/
def Ty.mark : Ty → Char
  | .error => '\x7b'
  | .void => 'v'
  | .bool => 'b'
  | .char => 'c'
  | .string => 's'
  | .int _ => 'i'
  | .array .. => '['
  | .reference .. => '^'
  | .function .. => 'd'

/-- The mark of the types that are displayed with this character in front. -/
def markOf (c : Char) : Char :=
  if c = 'u' then 'i' else c

lemma Ty.toList_display_function (params : List Ty) (ret : Ty) :
    (function params ret).display.toList = "def(".toList ++ (", ".intercalate (displayAll params)).toList ++
      ')' :: (if ret = .void then [] else " -> ".toList ++ ret.display.toList) := by
  by_cases hvoid : ret = .void
  · subst hvoid
    simp [display]
  · rw [display_function hvoid, if_neg hvoid]
    simp

lemma Ty.toList_display_array (element : Ty) (size : Nat) : (array element size).display.toList =
      '[' :: (element.display.toList ++ ',' :: ' ' :: ((toString size).toList ++ [']'])) := by
  simp [display]

lemma Ty.toList_display_reference (mutable : Bool) (target : Ty) : (reference mutable target).display.toList =
      '^' :: (if mutable then "mut ".toList else []) ++ target.display.toList := by
  cases mutable <;> simp [display]

lemma Ty.exists_display_eq (t : Ty) : ∃ c cs, t.display.toList = c :: cs ∧ markOf c = t.mark := by
  cases t with
  | int i => cases i <;> exact ⟨_,_,rfl,rfl⟩
  | array element size => exact ⟨_,_,toList_display_array element size,rfl⟩
  | reference mutable target => exact ⟨_,_,toList_display_reference mutable target,rfl⟩
  | function params ret => exact ⟨_,_,toList_display_function params ret,rfl⟩
  | _ => exact ⟨_,_,rfl,rfl⟩

lemma Ty.mark_eq_of_append (h : t.display.toList ++ x = u.display.toList ++ y) : t.mark = u.mark := by
  obtain ⟨c,cs,ht,hc⟩ := t.exists_display_eq
  obtain ⟨d,ds,hu,hd⟩ := u.exists_display_eq
  rw [ht, hu] at h
  rw [← hc, ← hd, (cons.inj h).1]

lemma Ty.display_append_ne (t : Ty) {c : Char} (hc : c ∈ [')', 'm', 'a']) (x cs : List Char) :
    t.display.toList ++ x ≠ c :: cs := by
  obtain ⟨d,ds,ht,hd⟩ := t.exists_display_eq
  rw [ht]
  intro h
  obtain rfl : d = c := (cons.inj h).1
  simp only [mem_cons, not_mem_nil, or_false] at hc
  obtain rfl | rfl | rfl := hc <;> cases t <;> simp [markOf, mark] at hd

/-! ## Texts with something after them -/

lemma toString_append_inj {n k : Nat}
    (h : (toString n).toList ++ ']' :: x = (toString k).toList ++ ']' :: y) : n = k ∧ x = y := by
  have hdigits (n : Nat) : ∀ c ∈ (toString n).toList, isDigit c = true := fun c hc =>
    isDigit_of_mem_toDigits (toList_toString n ▸ hc)
  have htake (n : Nat) (x : List Char) : ((toString n).toList ++ ']' :: x).takeWhile isDigit = (toString n).toList := by
    rw [takeWhile_append_of_pos (hdigits n), takeWhile_cons_of_neg (by decide), append_nil]
  have hsame : (toString n).toList = (toString k).toList := by rw [← htake n x, h, htake]
  have hn : n = k := by
    rw [toList_toString, toList_toString] at hsame
    rw [← Nat.ofDigitChars_ten_toDigits (n := n), hsame, Nat.ofDigitChars_ten_toDigits]
  rw [hsame] at h
  exact ⟨hn,(cons.inj (append_cancel_left h)).2⟩

/-- The texts of the types of a list after the first one. -/
def displayRest : List Ty → List Char
  | [] => []
  | t :: ts => ',' :: ' ' :: (t.display.toList ++ displayRest ts)

lemma toList_displayAll_cons (t : Ty) (ts : List Ty) :
    (", ".intercalate (displayAll (t :: ts))).toList = t.display.toList ++ displayRest ts := by
  induction ts generalizing t with
  | nil => simp [displayAll, displayRest]
  | cons u ts ih =>
    have hih := ih u
    simp only [displayAll, String.toList_intercalate] at hih ⊢
    simp [displayRest, ← hih]

lemma closes_displayRest (ts : List Ty) (x : List Char) : Closes (displayRest ts ++ ')' :: x) := by
  cases ts <;> simp [displayRest, Closes]

lemma Ty.append_inj_of_mark (ht : ∀ v : Ty, t.mark = v.mark → t = v)
    (h : t.display.toList ++ x = u.display.toList ++ y) : t = u ∧ x = y := by
  obtain rfl := ht u (mark_eq_of_append h)
  exact ⟨rfl,append_cancel_left h⟩

mutual

/-- A displayed type ends in front of what closes or separates the parts of a larger one. -/
theorem Ty.display_append_inj (t u : Ty) {x y : List Char} (hx : Closes x) (hy : Closes y)
    (h : t.display.toList ++ x = u.display.toList ++ y) : t = u ∧ x = y := by
  have hmark := mark_eq_of_append h
  cases t with
  | error | void | bool | char | string =>
    exact append_inj_of_mark (fun v => by cases v <;> simp [mark]) h
  | int i =>
    cases u with
    | int j =>
      simp only [display] at h
      cases i <;> cases j <;> simp_all [IntTy.name]
    | _ => simp [mark] at hmark
  | array element size =>
    cases u with
    | array element' size' =>
      simp only [toList_display_array, cons_append, append_assoc, List.cons.injEq, true_and, nil_append] at h
      obtain ⟨rfl,hsize⟩ := element.display_append_inj element' (by simp [Closes]) (by simp [Closes]) h
      obtain ⟨rfl,rfl⟩ := toString_append_inj (cons.inj (cons.inj hsize).2).2
      exact ⟨rfl,rfl⟩
    | _ => simp [mark] at hmark
  | reference mutable target =>
    cases u with
    | reference mutable' target' =>
      simp only [toList_display_reference, cons_append, append_assoc, List.cons.injEq, true_and] at h
      cases mutable <;> cases mutable'
      · obtain ⟨rfl,hxy⟩ := target.display_append_inj target' hx hy h
        exact ⟨rfl,hxy⟩
      · exact absurd h (target.display_append_ne (by decide) x _)
      · exact absurd h.symm (target'.display_append_ne (by decide) y _)
      · obtain ⟨rfl,hxy⟩ := target.display_append_inj target' hx hy (append_cancel_left h)
        exact ⟨rfl,hxy⟩
    | _ => simp [mark] at hmark
  | function params ret =>
    cases u with
    | function params' ret' =>
      simp only [toList_display_function, append_assoc, cons_append, append_cancel_left_eq] at h
      have hspace {z cs : List Char} (hz : Closes z) : z ≠ ' ' :: cs := by
        rintro rfl
        simpa using hz ' ' rfl
      obtain ⟨rfl,hret⟩ : params = params' ∧ (if ret = .void then [] else " -> ".toList ++ ret.display.toList) ++ x =
          (if ret' = .void then [] else " -> ".toList ++ ret'.display.toList) ++ y :=
        displayAll_append_inj params params' h
      by_cases hvoid : ret = .void <;> by_cases hvoid' : ret' = .void
      · rw [if_pos hvoid, if_pos hvoid'] at hret
        exact ⟨by rw [hvoid, hvoid'],hret⟩
      · rw [if_pos hvoid, if_neg hvoid'] at hret
        exact absurd hret (hspace hx)
      · rw [if_neg hvoid, if_pos hvoid'] at hret
        exact absurd hret.symm (hspace hy)
      · rw [if_neg hvoid, if_neg hvoid', append_assoc, append_assoc] at hret
        obtain ⟨rfl,hxy⟩ := ret.display_append_inj ret' hx hy (append_cancel_left hret)
        exact ⟨rfl,hxy⟩
    | _ => simp [mark] at hmark

lemma displayAll_append_inj : ∀ (ts us : List Ty) {x y : List Char},
    (", ".intercalate (displayAll ts)).toList ++ ')' :: x = (", ".intercalate (displayAll us)).toList ++ ')' :: y →
      ts = us ∧ x = y
  | [], [], _, _, h => ⟨rfl,(cons.inj h).2⟩
  | [], u :: us, x, y, h => by
    rw [toList_displayAll_cons, append_assoc] at h
    exact absurd h.symm (u.display_append_ne (by decide) _ x)
  | t :: ts, [], x, y, h => by
    rw [toList_displayAll_cons, append_assoc] at h
    exact absurd h (t.display_append_ne (by decide) _ y)
  | t :: ts, u :: us, x, y, h => by
    rw [toList_displayAll_cons, toList_displayAll_cons, append_assoc, append_assoc] at h
    obtain ⟨rfl,hrest⟩ := t.display_append_inj u (closes_displayRest ts x) (closes_displayRest us y) h
    obtain ⟨rfl,hxy⟩ := displayRest_append_inj ts us hrest
    exact ⟨rfl,hxy⟩

lemma displayRest_append_inj : ∀ (ts us : List Ty) {x y : List Char},
    displayRest ts ++ ')' :: x = displayRest us ++ ')' :: y → ts = us ∧ x = y
  | [], [], _, _, h => ⟨rfl,(cons.inj h).2⟩
  | [], u :: us, x, y, h => by
    cases (cons.inj h).1
  | t :: ts, [], x, y, h => by
    cases (cons.inj h).1
  | t :: ts, u :: us, x, y, h => by
    simp only [displayRest, cons_append, append_assoc, List.cons.injEq, true_and] at h
    obtain ⟨rfl,hrest⟩ := t.display_append_inj u (closes_displayRest ts x) (closes_displayRest us y) h
    obtain ⟨rfl,hxy⟩ := displayRest_append_inj ts us hrest
    exact ⟨rfl,hxy⟩

end

/-- Types with one text are equal. -/
theorem Ty.display_injective : Function.Injective display := by
  intro t u h
  have happend : t.display.toList ++ [] = u.display.toList ++ [] := by rw [h]
  exact (t.display_append_inj u (by simp [Closes]) (by simp [Closes]) happend).1

/-- The words for sorts of types that stand in the place of a type. -/
def sortWords : List String :=
  ["integer", "signed integer", "integer, bool or char", "integer literal", "a reference", "an array", "a function"]

lemma Ty.display_ne_sortWord (t : Ty) {word : String} (h : word ∈ sortWords) : t.display ≠ word := by
  have hwords : ∀ word ∈ sortWords, word.toList.head?.any fun c => markOf c ∈ ['i', 's', 'a'] := by decide
  intro heq
  obtain ⟨c,cs,ht,hc⟩ := t.exists_display_eq
  have hmark := hwords word h
  rw [← heq, ht, head?_cons, Option.any_some, hc, decide_eq_true_eq] at hmark
  simp only [sortWords, mem_cons, not_mem_nil, or_false] at h
  -- integers and strings are left
  cases t with
  | int i =>
    rw [display] at heq
    obtain rfl | rfl | rfl | rfl | rfl | rfl | rfl := h <;> cases i <;> simp [IntTy.name] at heq
  | string =>
    rw [display] at heq
    obtain rfl | rfl | rfl | rfl | rfl | rfl | rfl := h <;> simp at heq
  | _ => simp [mark] at hmark

/-- If the error is a mismatch, its two texts differ. -/
def SemanticError.Distinct (e : SemanticError) : Prop :=
  ∀ expected found, e.cause = .typeMismatch expected found → expected ≠ found

lemma SemanticError.distinct_mismatch {expected found : String} (h : expected ≠ found) (span : Span) :
    SemanticError.Distinct ⟨.typeMismatch expected found,span⟩ := by
  rintro _ _ ⟨⟩
  exact h

end Opal
