import Mathlib.Data.Nat.Digits.Defs
import Mathlib.Tactic.Ring
import Opal.Check.Constant
import Opal.Proofs.ScannedTokens

/-!
# The values of integer literals

An integer literal is written with digits of its base and with underscores, which do not count. Its value is that of its digits
in their positions.
-/

namespace Opal

open List

def TextClass.base : TextClass → Nat
  | hex => 16
  | binary => 2
  | _ => 10

/-- What follows the mark of the base in a literal. -/
def TextClass.body (c : TextClass) (text : String) : List Char :=
  text.toList.drop (if c = .decimal then 0 else 2)

/-- The digits of a literal, the first one first. -/
def TextClass.digits (c : TextClass) (text : String) : List Nat :=
  (c.body text).filterMap digit?

/-- The number that the digits of a literal stand for in their positions. -/
def TextClass.magnitude (c : TextClass) (text : String) : Nat :=
  Nat.ofDigits c.base (c.digits text).reverse

/-- Nothing but digits of a base and underscores. -/
def Spells (base : Nat) (cs : List Char) : Prop :=
  ∀ c ∈ cs, c = '_' ∨ ∃ d < base, digit? c = some d

/-! ## Characters -/

lemma spells_of_all {p : Char → Bool} {base : Nat} {cs : List Char} (h : cs.all p = true)
    (hp : ∀ c, p c = true → c = '_' ∨ ∃ d < base, digit? c = some d) : Spells base cs :=
  fun c hc => hp c (all_eq_true.1 h c hc)

lemma digit?_of_isDigit {c : Char} (h : isDigit c = true) : ∃ d < 10, digit? c = some d := by
  simp only [isDigit, Bool.and_eq_true, decide_eq_true_eq] at h
  refine ⟨_,?_,if_pos h⟩
  have hle : c.toNat ≤ '9'.toNat := h.2
  have hnine : '9'.toNat = '0'.toNat + 9 := rfl
  omega

lemma digit?_of_isDecimalPart {c : Char} (h : isDecimalPart c = true) : c = '_' ∨ ∃ d < 10, digit? c = some d := by
  simp only [isDecimalPart, Bool.or_eq_true, beq_iff_eq] at h
  exact h.symm.imp_right digit?_of_isDigit

lemma digit?_of_isBinaryPart {c : Char} (h : isBinaryPart c = true) : c = '_' ∨ ∃ d < 2, digit? c = some d := by
  simp only [isBinaryPart, Bool.or_eq_true, beq_iff_eq] at h
  obtain (rfl | rfl) | rfl := h
  · exact .inr ⟨0,by decide,rfl⟩
  · exact .inr ⟨1,by decide,rfl⟩
  · exact .inl rfl

lemma digit?_of_isHexPart {c : Char} (h : isHexPart c = true) : c = '_' ∨ ∃ d < 16, digit? c = some d := by
  simp only [isHexPart, Bool.or_eq_true, Bool.and_eq_true, decide_eq_true_eq, beq_iff_eq] at h
  obtain ((hdigit | hlower) | hupper) | rfl := h
  · obtain ⟨d,hd,hc⟩ := digit?_of_isDigit hdigit
    exact .inr ⟨d,by omega,hc⟩
  · have hge : 'a'.toNat ≤ c.toNat := hlower.1
    have hle : c.toNat ≤ 'f'.toNat := hlower.2
    have hnot : ¬ ('0' ≤ c ∧ c ≤ '9') := fun h => absurd (Char.le_trans hlower.1 h.2) (by decide)
    have hf : 'f'.toNat = 'a'.toNat + 5 := rfl
    exact .inr ⟨c.toNat - 'a'.toNat + 10,by omega,by rw [digit?, if_neg hnot, if_pos hlower]⟩
  · have hge : 'A'.toNat ≤ c.toNat := hupper.1
    have hle : c.toNat ≤ 'F'.toNat := hupper.2
    have hnot : ¬ ('0' ≤ c ∧ c ≤ '9') := fun h => absurd (Char.le_trans hupper.1 h.2) (by decide)
    have hnot' : ¬ ('a' ≤ c ∧ c ≤ 'f') := fun h => absurd (Char.le_trans h.1 hupper.2) (by decide)
    have hf : 'F'.toNat = 'A'.toNat + 5 := rfl
    exact .inr ⟨c.toNat - 'A'.toNat + 10,by omega,by rw [digit?, if_neg hnot, if_neg hnot', if_pos hupper]⟩
  · exact .inl rfl

section

variable {base : Nat} {cs : List Char} (h : Spells base cs)
include h

lemma readDigits_filter (acc : Nat) : readDigits base acc (cs.filter (· != '_')) =
    some (Nat.ofDigits base (cs.filterMap digit?).reverse + base ^ (cs.filterMap digit?).length * acc) := by
  induction cs generalizing acc with
  | nil => simp [readDigits]
  | cons c cs ih =>
    obtain ⟨hc,hcs⟩ := forall_mem_cons.1 h
    obtain rfl | ⟨d,hd,hc⟩ := hc
    · exact ih hcs acc
    have hne : (c != '_') = true := by
      rw [bne_iff_ne]
      rintro rfl
      cases hc
    rw [filter_cons, if_pos hne, readDigits, hc]
    simp only [if_pos hd, ih hcs, filterMap_cons, hc, reverse_cons, Nat.ofDigits_append,
      Nat.ofDigits_singleton, length_reverse, length_cons]
    congr 1
    ring

lemma readBase_filter : readBase base (cs.filter (· != '_')) =
    if cs.filterMap digit? ≠ [] ∧ Nat.ofDigits base (cs.filterMap digit?).reverse < 2 ^ 127 then
      some ((Nat.ofDigits base (cs.filterMap digit?).reverse : Nat) : Int) else none := by
  have hread := readDigits_filter h 0
  rw [Nat.mul_zero, Nat.add_zero] at hread
  generalize hn : Nat.ofDigits base (cs.filterMap digit?).reverse = n at hread
  cases hcs : cs.filter (· != '_') with
  | nil =>
    have hnil : cs.filterMap digit? = [] := filterMap_eq_nil_iff.2 fun c hc => by
      have hc := filter_eq_nil_iff.1 hcs c hc
      obtain rfl : c = '_' := by simpa using hc
      rfl
    rw [if_neg fun hne => hne.1 hnil]
    rfl
  | cons c ds =>
    obtain ⟨hmem,hne⟩ := mem_filter.1 (hcs ▸ (.head _) : c ∈ cs.filter (· != '_'))
    obtain ⟨d,-,hd⟩ := (h c hmem).resolve_left (by simpa using hne)
    have hne : cs.filterMap digit? ≠ [] := ne_nil_of_mem (mem_filterMap.2 ⟨c,hmem,hd⟩)
    rw [hcs] at hread
    have hvalue : readBase base (c :: ds) = (some (n : Int)).filter fun n => -Int.pow 2 127 ≤ n ∧ n < Int.pow 2 127 := by
      unfold readBase
      split
      · next heq => cases cons.inj heq |>.1 ▸ hd
      · next heq => cases cons.inj heq |>.1 ▸ hd
      · rw [readUnsigned, isEmpty_cons, if_neg Bool.false_ne_true, hread]
        rfl
    have hpow : Int.pow 2 127 = ((2 ^ 127 : Nat) : Int) := rfl
    rw [hvalue, Option.filter_some, hpow]
    refine if_congr ?_ rfl rfl
    simp only [hne, ne_eq, not_false_eq_true, true_and, decide_eq_true_eq]
    omega

end

/-! ## Tokens -/

lemma all_take_runLength (p : Char → Bool) (cs : List Char) : (cs.take (runLength p cs)).all p = true := by
  induction cs with
  | nil => rfl
  | cons c cs ih =>
    rw [runLength]
    split
    · next hc => rw [take_succ_cons, all_cons, hc, ih, Bool.and_true]
    · rfl

namespace PieceClass

variable {c : Char}

lemma isLiteral_decimal (hc : isDigit c = true) (cs : List Char) :
    isLiteral (String.ofList (c :: cs.take (runLength isDecimalPart cs))) = true := by
  have hparts := all_take_runLength isDecimalPart cs
  generalize cs.take (runLength isDecimalPart cs) = ds at hparts
  unfold isLiteral
  rw [String.toList_ofList]
  split
  · next heq => cases heq; simp [isDecimalPart, isDigit] at hparts
  · next heq => cases heq; simp [isDecimalPart, isDigit] at hparts
  · next heq => cases heq; simp [hc, hparts]
  · next heq => cases heq

lemma isLiteral_afterDigit (hc : isDigit c = true) (cs : List Char) :
    isLiteral (String.ofList (c :: cs.take (afterDigit c cs).2)) = true := by
  have hbody {p : Char → Bool} {ds : List Char} (hne : runLength p ds ≠ 0) : ds.take (runLength p ds) ≠ [] := by
    rintro hnil
    rcases take_eq_nil_iff.1 hnil with hzero | rfl
    · exact hne hzero
    · exact hne rfl
  unfold afterDigit
  split
  · next hzero =>
    obtain rfl := beq_iff_eq.1 hzero
    split
    · split
      · exact isLiteral_decimal hc _
      · next hne => simp [isLiteral, all_take_runLength, hbody hne]
    · split
      · exact isLiteral_decimal hc _
      · next hne => simp [isLiteral, all_take_runLength, hbody hne]
    · exact isLiteral_decimal hc _
  · exact isLiteral_decimal hc _

def isNumeral : PieceClass → Bool
  | text .hex | text .binary | text .decimal => true
  | _ => false

lemma isNumeral_afterSlash (cs : List Char) : (afterSlash cs).1.isNumeral = false := by
  unfold afterSlash
  split
  · rfl
  · dsimp only
    split <;> rfl
  · rfl

lemma isNumeral_afterDoubleQuote (cs : List Char) : (afterDoubleQuote cs).1.isNumeral = false := by
  unfold afterDoubleQuote
  dsimp only
  split <;> rfl

lemma isNumeral_afterSingleQuote (cs : List Char) : (afterSingleQuote cs).1.isNumeral = false := by
  unfold afterSingleQuote
  split
  · split <;> rfl
  · split <;> rfl
  · rfl

lemma isNumeral_afterOperator (c : Char) (cs : List Char) : (afterOperator c cs).1.isNumeral = false := by
  unfold afterOperator
  split
  · rfl
  · split <;> rfl

lemma isLiteral_ahead {cs : List Char} (h : (ahead c cs).1.isNumeral = true) :
    isLiteral (String.ofList (c :: cs.take (ahead c cs).2)) = true := by
  by_cases hc : isDigit c = true
  · rw [Kind.ahead_of_isDigit hc]
    exact isLiteral_afterDigit hc cs
  · unfold ahead at h
    rw [if_neg hc] at h
    split_ifs at h
    · cases h
    · rw [isNumeral_afterSlash] at h
      cases h
    · rw [isNumeral_afterDoubleQuote] at h
      cases h
    · rw [isNumeral_afterSingleQuote] at h
      cases h
    · cases h
    · rw [isNumeral_afterOperator] at h
      cases h

end PieceClass

lemma isLiteral_of_mem_scan {source : String} {t : Token} {c : TextClass} {text : String} (ht : .ok t ∈ scan source)
    (hkind : t.kind = .text c text) (hc : (PieceClass.text c).isNumeral = true) :
    isLiteral text = true ∧ Kind.ofLiteral text = .text c text := by
  obtain ⟨p,hp,start,hs⟩ := Piece.exists_of_mem_scanFrom ht
  have hplain := (Piece.isRead_of_mem_tile hp).plain start t hs
  have hliteral : p.cls.isNumeral = true → isLiteral (String.ofList p.chars) = true :=
    Piece.forall_mem_tileFrom (P := fun p => p.cls.isNumeral = true → isLiteral (String.ofList p.chars) = true)
      (fun _ _ => PieceClass.isLiteral_ahead) _ 0 p hp
  obtain ⟨cls,chars⟩ := p
  cases cls with
  | gap | fault => cases hs
  | punct =>
    cases hs
    cases hkind
  | word =>
    cases hs
    have hword : Kind.ofWord (String.ofList chars) = .text c text := hkind
    unfold Kind.ofWord at hword
    split at hword <;> cases hword
    cases hc
  | text cls =>
    cases hs
    cases hkind
    refine ⟨hliteral hc,?_⟩
    cases c with
    | hex | binary | decimal => exact hplain
    | char | string | identifier => cases hc

lemma literalValue?_of_isLiteral {text : String} {c : TextClass} (h : isLiteral text = true)
    (hc : Kind.ofLiteral text = .text c text) :
    Spells c.base (c.body text) ∧ literalValue? text = readBase c.base ((c.body text).filter (· != '_')) := by
  unfold isLiteral at h
  unfold Kind.ofLiteral at hc
  unfold TextClass.body literalValue?
  split at h
  · next cs htext =>
    rw [htext] at hc ⊢
    cases hc
    exact ⟨spells_of_all (Bool.and_eq_true_iff.1 h).2 fun _ => digit?_of_isHexPart,rfl⟩
  · next cs htext =>
    rw [htext] at hc ⊢
    cases hc
    exact ⟨spells_of_all (Bool.and_eq_true_iff.1 h).2 fun _ => digit?_of_isBinaryPart,rfl⟩
  · next d cs hhex hbinary htext =>
    rw [htext] at hc ⊢
    obtain ⟨hd,hcs⟩ := Bool.and_eq_true_iff.1 h
    have hspells : Spells 10 (d :: cs) := forall_mem_cons.2
      ⟨.inr (digit?_of_isDigit hd),spells_of_all hcs fun _ => digit?_of_isDecimalPart⟩
    -- There is no mark of a base among decimal digits.
    have hmark {x : Char} (hx : x ∈ (d :: cs).filter (· != '_')) : ∃ n < 10, digit? x = some n := by
      obtain ⟨hmem,hne⟩ := mem_filter.1 hx
      exact (hspells x hmem).resolve_left (by simpa using hne)
    obtain rfl : c = .decimal := by
      split at hc
      · next heq => cases heq; exact (hhex _ rfl rfl).elim
      · next heq => cases heq; exact (hbinary _ rfl rfl).elim
      · cases hc; rfl
    refine ⟨hspells,?_⟩
    split
    · next heq =>
      obtain ⟨n,-,hn⟩ := hmark (x := 'x') (by simp [heq])
      cases hn
    · next heq =>
      obtain ⟨n,hlt,hn⟩ := hmark (x := 'b') (by simp [heq])
      cases hn
      omega
    · rfl
  · cases h

/-- An integer literal stands for its mathematical value. After the mark of its base there are digits of this base
and underscores; its value is that of the digits in their positions, if there is a digit and the value is less than
`2 ^ 127`. It can be written, with a minus sign or without, where a value of an integer type is required, exactly
if there is a digit and the number is in the range of the type. Such a number fits in a word. -/
theorem literal_exact {source : String} {t : Token} {c : TextClass} {text : String} (ht : .ok t ∈ scan source)
    (hkind : t.kind = .text c text) (hc : c = .hex ∨ c = .binary ∨ c = .decimal) :
    Spells c.base (c.body text) ∧
    literalValue? text = (if c.digits text ≠ [] ∧ c.magnitude text < 2 ^ 127 then some (c.magnitude text : Int) else none) ∧
    ∀ (i : IntTy) (negative : Bool) (span : Span),
      let n : Int := if negative then -(c.magnitude text : Int) else c.magnitude text
      literalOfType text negative (some (.int i)) span = (if c.digits text ≠ [] ∧ i.contains n = true then pure (.int n i)
          else Check.fail (.literalOutOfRange (if negative then "-" ++ text else text) i.name) span) ∧
      (i.contains n = true → c.magnitude text < 2 ^ 127 ∧ word? n = some n) := by
  obtain ⟨hliteral,hclass⟩ := isLiteral_of_mem_scan ht hkind (by rcases hc with rfl | rfl | rfl <;> rfl)
  obtain ⟨hspells,hvalue⟩ := literalValue?_of_isLiteral hliteral hclass
  rw [readBase_filter hspells] at hvalue
  change literalValue? text = if c.digits text ≠ [] ∧ c.magnitude text < 2 ^ 127 then some (c.magnitude text : Int) else none
    at hvalue
  refine ⟨hspells,hvalue,fun i negative span => ?_⟩
  intro n
  have hsmall (hn : i.contains n = true) : c.magnitude text < 2 ^ 127 := by
    have hmin := i.le_min
    have hmax := i.max_lt
    have hpow : Int.pow 2 31 = 2 ^ 31 ∧ Int.pow 2 32 = 2 ^ 32 := ⟨rfl,rfl⟩
    rw [IntTy.contains_iff] at hn
    have hcases : n = c.magnitude text ∨ n = -(c.magnitude text : Int) := by
      cases negative
      · exact .inl rfl
      · exact .inr rfl
    omega
  refine ⟨?_,fun hn => ⟨hsmall hn,word?_of_contains hn⟩⟩
  simp only [literalOfType, hvalue]
  by_cases hdigits : c.digits text ≠ [] ∧ c.magnitude text < 2 ^ 127
  · rw [if_pos hdigits]
    exact if_congr (by simp [hdigits.1, n]) rfl rfl
  · rw [if_neg hdigits]
    exact (if_neg fun h => hdigits ⟨h.1,hsmall h.2⟩).symm

/-- An underscore right after the mark, and digits of both cases. -/
theorem literal_exact_hex : TextClass.magnitude .hex "0x_F_f" = 255 ∧ literalValue? "0x_F_f" = some 255 := by
  have hvalue := (@literal_exact "0x_F_f" ⟨.text .hex "0x_F_f",⟨0,6⟩⟩ .hex "0x_F_f" (by decide +kernel) rfl (.inl rfl)).2.1
  have hmagnitude : TextClass.magnitude .hex "0x_F_f" = 255 := by decide +kernel
  rw [hmagnitude, if_pos (by decide +kernel)] at hvalue
  exact ⟨hmagnitude,hvalue⟩

end Opal
