import Mathlib.Algebra.Ring.Parity
import Mathlib.Data.List.DropRight
import Mathlib.Order.Bounds.Basic
import Opal.Proofs.Lexemes

/-!
# Where a block comment ends

A star in a comment is read together with the next character. So a slash after an odd number of stars ends the comment, and
after an even number it does not.
-/

namespace Opal

open List Piece

/-- The number of stars in a row at the end of a text. -/
def finalStars (cs : List Char) : Nat :=
  (cs.rtakeWhile (· == '*')).length

/-- The first `n` characters end in a star and a slash, and the star is the last of an odd number of stars in a row. -/
def ClosesAt (cs : List Char) (n : Nat) : Prop :=
  ∃ text after, cs = text ++ '/' :: after ∧ Odd (finalStars text) ∧ n = text.length + 1

/-! ### The pieces of a text -/

namespace Piece

lemma tile_cons (c : Char) (cs : List Char) : tile (c :: cs) =
    ⟨(PieceClass.ahead c cs).1,c :: cs.take (PieceClass.ahead c cs).2⟩ :: tile (cs.drop (PieceClass.ahead c cs).2) := by
  rw [← tileFrom_eq_tile_drop]
  rfl

/-- The pieces after the first ones are those of the text that is left. -/
theorem eq_tile_of_append {cs : List Char} {ps qs : List Piece} (h : tile cs = ps ++ qs) : qs = tile (qs.map chars).flatten := by
  induction ps generalizing cs with
  | nil =>
    obtain rfl : tile cs = qs := h
    rw [tile_flatten]
  | cons p ps ih =>
    cases cs with
    | nil => cases h
    | cons c cs =>
      rw [tile_cons] at h
      exact ih (cons.inj h).2

lemma scanFrom_append (start : Nat) (ps qs : List Piece) :
    scanFrom start (ps ++ qs) = scanFrom start ps ++ scanFrom (start + byteLength (ps.map chars).flatten) qs := by
  induction ps generalizing start with
  | nil => rfl
  | cons p ps ih => simp [scanFrom, ih, byteLength_append, Nat.add_assoc]

end Piece

/-! ### Stars in a row -/

@[simp] lemma finalStars_nil : finalStars [] = 0 := rfl

lemma finalStars_cons (c : Char) (cs : List Char) :
    finalStars (c :: cs) = if finalStars cs = cs.length ∧ c = '*' then cs.length + 1 else finalStars cs := by
  simp only [finalStars, List.rtakeWhile, reverse_cons, takeWhile_append, length_reverse]
  by_cases hall : (cs.reverse.takeWhile (· == '*')).length = cs.length
  · by_cases hc : c = '*' <;> simp [hall, hc]
  · simp [hall]

lemma finalStars_cons_of_ne {c : Char} (h : c ≠ '*') (cs : List Char) : finalStars (c :: cs) = finalStars cs := by
  rw [finalStars_cons, if_neg fun hc => h hc.2]

/-- A star and the character after it do not change whether there is an odd number of stars at the end. -/
theorem odd_finalStars_pair (d : Char) (cs : List Char) : Odd (finalStars ('*' :: d :: cs)) ↔ Odd (finalStars cs) := by
  have hle : finalStars cs ≤ cs.length := by
    simpa [finalStars, List.rtakeWhile] using (takeWhile_sublist (l := cs.reverse) (· == '*')).length_le
  rw [finalStars_cons, finalStars_cons, length_cons]
  by_cases hall : finalStars cs = cs.length ∧ d = '*'
  · simp [hall, Nat.odd_add_one]
  · rw [if_neg hall, if_neg (by omega)]

/-! ### The body of a comment -/

/-- The body of a comment, in front of a text, does not change whether there is an odd number of stars at the end. -/
theorem odd_finalStars_body (cs text : List Char) :
    Odd (finalStars (cs.take (commentBody cs) ++ text)) ↔ Odd (finalStars text) := by
  fun_induction commentBody cs with
  | case1 | case2 | case4 => rfl
  | case3 c hc => simp [finalStars_cons_of_ne (by simpa using hc)]
  | case5 c d cs hc hd ih =>
    obtain rfl := beq_iff_eq.1 hc
    exact (odd_finalStars_pair d _).trans ih
  | case6 c d cs hc ih =>
    rw [take_succ_cons, cons_append, finalStars_cons_of_ne (by simpa using hc)]
    exact ih

/-- No comment ends inside its body. -/
theorem commentBody_lt (cs : List Char) {text after : List Char} (hcs : cs = text ++ '/' :: after)
    (hodd : Odd (finalStars text)) : commentBody cs < text.length := by
  fun_induction commentBody cs generalizing text with
  | case1 => simp at hcs
  | case2 | case4 | case3 c hc => cases text <;> simp_all
  | case5 c d cs hc hd ih =>
    obtain rfl := beq_iff_eq.1 hc
    obtain _ | ⟨_,_ | ⟨_,text⟩⟩ := text
    · cases hcs
    · simp_all
    · simp only [cons_append, List.cons.injEq] at hcs
      obtain ⟨rfl,rfl,rfl⟩ := hcs
      simpa using ih rfl ((odd_finalStars_pair _ _).1 hodd)
  | case6 c d cs hc ih =>
    cases text with
    | nil => simp at hodd
    | cons c' text =>
      obtain ⟨rfl,htext⟩ := cons.inj hcs
      rw [finalStars_cons_of_ne (by simpa using hc)] at hodd
      simpa using ih htext hodd

/-- After the body there is nothing, a last star, or the end of the comment. -/
theorem drop_commentBody (cs : List Char) : cs.drop (commentBody cs) = [] ∨ cs.drop (commentBody cs) = ['*'] ∨
    ∃ rest, cs.drop (commentBody cs) = '*' :: '/' :: rest := by
  fun_induction commentBody cs with
  | case1 | case3 => simp
  | case2 c hc => simpa using hc
  | case4 c d cs hc hd => simp_all
  | case5 c d cs hc hd ih | case6 c d cs hc ih => exact ih

lemma commentBody_of_notMem {body : List Char} (h : '*' ∉ body) (rest : List Char) :
    commentBody (body ++ '*' :: '/' :: rest) = body.length := by
  induction body with
  | nil => rfl
  | cons c body ih =>
    obtain ⟨hc,hbody⟩ := ne_and_not_mem_of_not_mem_cons h
    obtain ⟨d,ds,hd⟩ : ∃ d ds, body ++ '*' :: '/' :: rest = d :: ds := by cases body <;> simp
    rw [cons_append, length_cons, ← ih hbody, hd, commentBody, if_neg (by simpa using Ne.symm hc)]

section

variable {cs : List Char} {n : Nat}

lemma closesAt_commentBody {rest : List Char} (h : cs.drop (commentBody cs) = '*' :: '/' :: rest) :
    IsLeast {n | ClosesAt cs n} (commentBody cs + 2) := by
  have hlen : (cs.take (commentBody cs)).length = commentBody cs := by
    have := congrArg List.length h
    simp at this ⊢
    omega
  refine ⟨⟨cs.take (commentBody cs) ++ ['*'],rest,?_,(odd_finalStars_body cs ['*']).2 (by decide),?_⟩,?_⟩
  · rw [append_assoc, singleton_append, ← h, take_append_drop]
  · rw [length_append, hlen, length_singleton]
  · rintro _ ⟨text,after,hcs,hodd,rfl⟩
    have := commentBody_lt cs hcs hodd
    omega

lemma not_closesAt_of_le (h : cs.length ≤ commentBody cs + 1) : ¬ ClosesAt cs n := by
  rintro ⟨text,after,hcs,hodd,-⟩
  have hlt := commentBody_lt cs hcs hodd
  have := congrArg List.length hcs
  simp at this
  omega

lemma commentBody_cases (cs : List Char) : (∃ rest, cs.drop (commentBody cs) = '*' :: '/' :: rest) ∨
    (∀ n, ¬ ClosesAt cs n) ∧ (cs.drop (commentBody cs) = [] ∨ cs.drop (commentBody cs) = ['*']) := by
  obtain hdrop | hdrop | hclose := drop_commentBody cs
  · exact .inr ⟨fun n => not_closesAt_of_le ((drop_eq_nil_iff.1 hdrop).trans (Nat.le_succ _)),.inl hdrop⟩
  · have hlen := congrArg List.length hdrop
    rw [length_drop, length_singleton] at hlen
    exact .inr ⟨fun n => not_closesAt_of_le (by omega),.inr hdrop⟩
  · exact .inl hclose

/-- The piece that starts with the mark of a comment, if the comment has an end. -/
theorem tile_of_closesAt (h : IsLeast {n | ClosesAt cs n} n) :
    tile ('/' :: '*' :: cs) = ⟨.gap,'/' :: '*' :: cs.take n⟩ :: tile (cs.drop n) := by
  obtain ⟨rest,hdrop⟩ | ⟨hopen,-⟩ := commentBody_cases cs
  · obtain rfl := h.unique (closesAt_commentBody hdrop)
    have hahead : PieceClass.ahead '/' ('*' :: cs) = (.gap, commentBody cs + 3) := by
      change PieceClass.afterSlash ('*' :: cs) = _
      simp only [PieceClass.afterSlash, hdrop]
    rw [tile_cons, hahead]
    rfl
  · exact (hopen n h.1).elim

/-- The pieces that start with the mark of a comment, if the comment has no end. -/
theorem tile_of_not_closesAt (h : ∀ n, ¬ ClosesAt cs n) : tile ('/' :: '*' :: cs) =
      if Odd (finalStars cs) then [⟨.fault,'/' :: '*' :: cs.dropLast⟩, ⟨.punct .star,['*']⟩]
      else [⟨.fault,'/' :: '*' :: cs⟩] := by
  have hbody := odd_finalStars_body cs (cs.drop (commentBody cs))
  rw [take_append_drop] at hbody
  have hnot (rest : List Char) : cs.drop (commentBody cs) ≠ '*' :: '/' :: rest :=
    fun hdrop => h _ (closesAt_commentBody hdrop).1
  have hahead : PieceClass.ahead '/' ('*' :: cs) = (.fault, commentBody cs + 1) := by
    change PieceClass.afterSlash ('*' :: cs) = _
    simp only [PieceClass.afterSlash]
  have htile : tile ('/' :: '*' :: cs) =
      ⟨.fault,'/' :: '*' :: cs.take (commentBody cs)⟩ :: tile (cs.drop (commentBody cs)) := by
    rw [tile_cons, hahead]
    rfl
  obtain ⟨rest,hdrop⟩ | ⟨-,hdrop | hdrop⟩ := commentBody_cases cs
  · exact (hnot rest hdrop).elim
  · rw [htile, if_neg (by simp [hbody, hdrop]), take_of_length_le (drop_eq_nil_iff.1 hdrop), hdrop]
    rfl
  · have hcs : cs = cs.take (commentBody cs) ++ ['*'] := by rw [← hdrop, take_append_drop]
    have hlast : cs.take (commentBody cs) = cs.dropLast := by
      conv_rhs => rw [hcs, dropLast_concat]
    rw [htile, if_pos (hbody.2 (by rw [hdrop]; decide)), hdrop, hlast]
    rfl

end

/-- Where a piece starts with the mark of a block comment, the comment is skipped through the first slash after an odd number of
stars. Without one it is an error that reaches to the end of the input, but for the last of an odd number of stars there. -/
theorem block_comment_ends {source : String} {ps qs : List Piece} (hsource : tile source.toList = ps ++ qs)
    {r : List Char} (hr : (qs.map chars).flatten = '/' :: '*' :: r) :
    let start := byteLength (ps.map chars).flatten
    let slice := '/' :: '*' :: if Odd (finalStars r) then r.dropLast else r
    let stop := start + byteLength slice
    (∀ n, IsLeast {n | ClosesAt r n} n → scan source =
      scanFrom 0 ps ++ scanFrom (start + byteLength ('/' :: '*' :: r.take n)) (tile (r.drop n))) ∧
    ((∀ n, ¬ ClosesAt r n) → scan source = scanFrom 0 ps ++ .error ⟨.unexpected (String.ofList slice),⟨start,stop⟩⟩ ::
        if Odd (finalStars r) then [.ok ⟨.punct .star,⟨stop,stop + 1⟩⟩] else []) ∧
    (∀ body rest, '*' ∉ body → r = body ++ '*' :: '/' :: rest → scan source = scanFrom 0 ps ++
        scanFrom (start + byteLength ('/' :: '*' :: body ++ ['*', '/'])) (tile rest)) ∧
    ∀ text rest, r = text ++ '/' :: rest → Even (finalStars text) → qs.head? ≠ some ⟨.gap,'/' :: '*' :: text ++ ['/']⟩ := by
  intro start slice stop
  have hqs := eq_tile_of_append hsource
  rw [hr] at hqs
  have hscan : scan source = scanFrom 0 ps ++ scanFrom start qs := by
    rw [scan, hsource, scanFrom_append, Nat.zero_add]
  have hclosed {n : Nat} (hn : IsLeast {n | ClosesAt r n} n) : scan source =
      scanFrom 0 ps ++ scanFrom (start + byteLength ('/' :: '*' :: r.take n)) (tile (r.drop n)) := by
    rw [hscan, hqs, tile_of_closesAt hn]
    rfl
  refine ⟨fun n => hclosed,fun hopen => ?_,fun body rest hbody hrest => ?_,fun text rest htext heven hhead => ?_⟩
  · rw [hscan, hqs, tile_of_not_closesAt hopen]
    by_cases hodd : Odd (finalStars r)
    · simp only [if_pos hodd, slice, stop]
      rfl
    · simp only [if_neg hodd, slice, stop]
      rfl
  · have hleast : IsLeast {n | ClosesAt r n} (body.length + 2) := by
      have hdrop : (body ++ '*' :: '/' :: rest).drop body.length = '*' :: '/' :: rest := drop_left
      rw [hrest, ← commentBody_of_notMem hbody rest] at *
      exact closesAt_commentBody hdrop
    have hlen : body.length + 2 = (body ++ ['*', '/']).length := by simp
    have hsplit : r = (body ++ ['*', '/']) ++ rest := by simp [hrest]
    rw [hclosed hleast, hlen, hsplit, take_left, drop_left]
    rfl
  · obtain ⟨_,hdrop⟩ | ⟨hopen,-⟩ := commentBody_cases r
    · have hn := closesAt_commentBody hdrop
      rw [hqs, tile_of_closesAt hn] at hhead
      obtain ⟨text',after,hafter,hodd,hlen⟩ := hn.1
      have htake : r.take (commentBody r + 2) = text' ++ ['/'] := by
        rw [hlen, hafter, take_length_add_append]
        rfl
      have hchars : '/' :: '*' :: (text' ++ ['/']) = '/' :: '*' :: (text ++ ['/']) := by simpa [htake] using hhead
      obtain rfl : text' = text := append_cancel_right (cons.inj (cons.inj hchars).2).2
      exact Nat.not_even_iff_odd.2 hodd heven
    · rw [hqs, tile_of_not_closesAt hopen] at hhead
      split at hhead <;> cases hhead

/-- Two stars and a slash do not end the comment. -/
theorem block_comment_ends_after_two_stars : tile "x/* **/ */y".toList = [⟨.word,['x']⟩] ++ tile "/* **/ */y".toList ∧
      IsLeast {n | ClosesAt " **/ */y".toList n} 7 ∧
      scan "x/* **/ */y" = scanFrom 0 [⟨.word,['x']⟩] ++ scanFrom 10 (tile ['y']) := by
  have hsource : tile "x/* **/ */y".toList = [⟨.word,['x']⟩] ++ tile "/* **/ */y".toList := by decide +kernel
  have hleast : IsLeast {n | ClosesAt " **/ */y".toList n} 7 := by
    have hdrop : " **/ */y".toList.drop 5 = ['*', '/', 'y'] := by decide
    exact closesAt_commentBody hdrop
  exact ⟨hsource,hleast,(block_comment_ends hsource (tile_flatten _)).1 7 hleast⟩

end Opal
