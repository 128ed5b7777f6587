import Opal.Proofs.Examination
import Opal.Proofs.NumberedTypes
import Opal.Proofs.PrintedTrees

/-!
# Displayed types are read back

The type of a value is displayed as the language writes it, and its text is read back as the type. Tokens without a space
between them are told apart by what follows them.
-/

namespace Opal

open List Option Piece Cursor

variable {c : Char} {n : Nat} {t : Ty} {f : TypeForm}

mutual

/-- A type as a source text writes it. -/
def Ty.written : Ty → TypeExpr
  | .error => ⟨default,.named (Ty.display .error)⟩
  | .void => ⟨default,.named "void"⟩
  | .bool => ⟨default,.named "bool"⟩
  | .char => ⟨default,.named "char"⟩
  | .string => ⟨default,.named "string"⟩
  | .int i => ⟨default,.named i.name⟩
  | .array element size => ⟨default,.array element.written ⟨0,default,.int (toString size)⟩⟩
  | .reference mutable target => ⟨default,.reference mutable target.written⟩
  | .function params .void => ⟨default,.function (writtenAll params) none⟩
  | .function params ret => ⟨default,.function (writtenAll params) (some ret.written)⟩

def writtenAll : List Ty → List TypeExpr
  | [] => []
  | t :: ts => t.written :: writtenAll ts

end

lemma Ty.written_function {params : List Ty} {ret : Ty} (h : ret ≠ .void) :
    (Ty.function params ret).written = ⟨default,.function (writtenAll params) (some ret.written)⟩ := by
  rw [Ty.written]
  exact h

lemma Ty.display_function {params : List Ty} {ret : Ty} (h : ret ≠ .void) : (Ty.function params ret).display =
      "def(" ++ ", ".intercalate (displayAll params) ++ ") -> " ++ ret.display := by
  rw [Ty.display]
  exact h

/-! ### Scanning without spaces -/

/-- What may stand after a displayed type: the end, or what closes or separates the parts of a type. -/
def Closes (rest : List Char) : Prop :=
  ∀ c ∈ rest.head?, c ∈ [',', ']', ')']

/-- The marks of one character that are no part of a longer one. -/
def soleMarks : List (Char × Punct) :=
  [('[', .lbracket), (']', .rbracket), ('(', .lparen), (')', .rparen), (',', .comma), ('^', .caret)]

/-- The characters `cs`, with `rest` after them, are scanned as tokens of the kinds `ks`. -/
def Scans (cs rest : List Char) (ks : List Kind) : Prop :=
  ∀ start, ∃ ts : List Token, ts.map Token.kind = ks ∧ scanFrom start (tile (cs ++ rest)) =
      ts.map .ok ++ scanFrom (start + byteLength cs) (tile rest)

namespace Scans

variable {cs ds rest : List Char} {ks ls : List Kind}

lemma append (h : Scans cs (ds ++ rest) ks) (h' : Scans ds rest ls) : Scans (cs ++ ds) rest (ks ++ ls) := by
  intro start
  obtain ⟨ts,hts,hscan⟩ := h start
  obtain ⟨us,hus,hscan'⟩ := h' (start + byteLength cs)
  refine ⟨ts ++ us,by simp [hts, hus],?_⟩
  rw [append_assoc, hscan, hscan', map_append, append_assoc, byteLength_append, Nat.add_assoc]

lemma nil (rest : List Char) : Scans [] rest [] :=
  fun _ => ⟨[],rfl,rfl⟩

lemma piece (cls : PieceClass) {k : Kind} (hahead : PieceClass.ahead c (cs ++ rest) = (cls, cs.length))
    (hscanned : ∀ start, scanned? start ⟨cls,c :: cs⟩ = some (.ok ⟨k,⟨start,start + byteLength (c :: cs)⟩⟩)) :
    Scans (c :: cs) rest [k] := by
  intro start
  refine ⟨[⟨k,⟨start,start + byteLength (c :: cs)⟩⟩],rfl,?_⟩
  rw [tile_append hahead, scanFrom, hscanned]
  rfl

lemma space (h : ∀ c ∈ rest.head?, isBlank c = false) : Scans [' '] rest [] := by
  intro start
  refine ⟨[],rfl,?_⟩
  have hahead : PieceClass.ahead ' ' ([] ++ rest) = (.gap, 0) := by
    rw [nil_append, PieceClass.ahead, if_pos (by decide)]
    cases rest with
    | nil => rfl
    | cons c cs => rw [runLength, h c rfl, if_neg Bool.false_ne_true]
  rw [tile_append hahead, scanFrom]
  rfl

lemma runLength_append {p : Char → Bool} (hcs : cs.all p) (h : ∀ c ∈ rest.head?, p c = false) :
    runLength p (cs ++ rest) = cs.length := by
  induction cs with
  | nil =>
    cases rest with
    | nil => rfl
    | cons c cs => simp [runLength, h c rfl]
  | cons c cs ih =>
    simp only [all_cons, Bool.and_eq_true] at hcs
    simp [runLength, hcs.1, ih hcs.2]

lemma word {word : String} (hword : isWord word) (h : ∀ c ∈ rest.head?, isIdentPart c = false) :
    Scans word.toList rest [.ofWord word] := by
  unfold isWord at hword
  split at hword
  · cases hword
  · next c cs hchars =>
    simp only [Bool.and_eq_true] at hword
    rw [hchars]
    refine piece .word ?_ fun start => ?_
    · rw [Kind.ahead_of_isIdentStart hword.1, runLength_append hword.2 h]
    · simp [scanned?, ← hchars]

lemma mark {p : Punct} (h : (c, p) ∈ soleMarks) (rest : List Char) : Scans [c] rest [.punct p] := by
  refine piece (.punct p) ?_ fun _ => rfl
  simp only [soleMarks, mem_cons, not_mem_nil, or_false, Prod.mk.injEq] at h
  obtain ⟨rfl,rfl⟩ | ⟨rfl,rfl⟩ | ⟨rfl,rfl⟩ | ⟨rfl,rfl⟩ | ⟨rfl,rfl⟩ | ⟨rfl,rfl⟩ := h
  all_goals cases rest <;> rfl

lemma arrow (rest : List Char) : Scans ['-', '>'] rest [.punct .arrow] :=
  piece (.punct .arrow) (Kind.ahead_double rfl rest) fun _ => rfl

end Scans

/-! ### Numbers -/

lemma isDigit_of_mem_toDigits (h : c ∈ Nat.toDigits 10 n) : isDigit c := by
  have hdigit := Nat.isDigit_of_mem_toDigits (by decide) (by decide) h
  exact hdigit

lemma exists_toDigits (n : Nat) : ∃ c cs, Nat.toDigits 10 n = c :: cs ∧ isDigit c ∧ ∀ d ∈ cs, isDigit d := by
  cases h : Nat.toDigits 10 n with
  | nil => exact absurd h Nat.toDigits_ne_nil
  | cons c cs =>
    have hdigit : ∀ d ∈ c :: cs, isDigit d := fun d hd => isDigit_of_mem_toDigits (n := n) (h ▸ hd)
    exact ⟨c,cs,rfl,(forall_mem_cons.1 hdigit).1,(forall_mem_cons.1 hdigit).2⟩

lemma toList_toString (n : Nat) : (toString n).toList = Nat.toDigits 10 n := by
  rw [Nat.toString_eq_repr, Nat.toList_repr]

lemma toList_toString_ne {mark : Char} (hmark : isDigit mark = false) (ds : List Char) :
    (toString n).toList ≠ '0' :: mark :: ds := by
  intro h
  rw [toList_toString] at h
  have hdigit : isDigit mark := isDigit_of_mem_toDigits (n := n) (by simp [h])
  rw [hmark] at hdigit
  cases hdigit

lemma ofLiteral_toString (n : Nat) : Kind.ofLiteral (toString n) = .text .decimal (toString n) := by
  unfold Kind.ofLiteral
  split
  · next h => exact absurd h (toList_toString_ne rfl _)
  · next h => exact absurd h (toList_toString_ne rfl _)
  · rfl

lemma isLiteral_toString (n : Nat) : isLiteral (toString n) := by
  obtain ⟨c,cs,hdigits,hc,hcs⟩ := exists_toDigits n
  unfold isLiteral
  split
  · next h => exact absurd h (toList_toString_ne rfl _)
  · next h => exact absurd h (toList_toString_ne rfl _)
  · next h =>
    rw [toList_toString, hdigits] at h
    cases h
    rw [hc, Bool.true_and]
    exact all_eq_true.2 fun d hd => by simp [isDecimalPart, hcs d hd]
  · next h =>
    rw [toList_toString, hdigits] at h
    cases h

lemma readDigits_eq_ofDigitChars {cs : List Char} (h : ∀ c ∈ cs, isDigit c) (acc : Nat) :
    readDigits 10 acc cs = some (Nat.ofDigitChars 10 cs acc) := by
  induction cs generalizing acc with
  | nil => rw [readDigits, Nat.ofDigitChars_nil]
  | cons c cs ih =>
    obtain ⟨hc,hcs⟩ := forall_mem_cons.1 h
    simp only [isDigit, Bool.and_eq_true, decide_eq_true_eq] at hc
    have hlt : c.toNat - '0'.toNat < 10 := by
      have hle : c.toNat ≤ '9'.toNat := hc.2
      have : '9'.toNat = '0'.toNat + 9 := rfl
      omega
    rw [readDigits, digit?, if_pos hc, Nat.ofDigitChars_cons]
    simp only
    rw [if_pos hlt, ih hcs, Nat.mul_comm]

lemma literalValue?_toString (h : n < 2 ^ 32) : literalValue? (toString n) = some (n : Int) := by
  have hdigit : ∀ c ∈ Nat.toDigits 10 n, isDigit c := fun c => isDigit_of_mem_toDigits
  have hfilter : (toString n).toList.filter (· != '_') = Nat.toDigits 10 n := by
    rw [toList_toString]
    refine filter_eq_self.2 fun c hc => ?_
    have := hdigit c hc
    rw [bne_iff_ne]
    rintro rfl
    cases this
  have hread : readUnsigned 10 (Nat.toDigits 10 n) = some n := by
    rw [readUnsigned, if_neg (by simp), readDigits_eq_ofDigitChars hdigit, Nat.ofDigitChars_ten_toDigits]
  have hrange : (n : Int) < 2 ^ 127 := by omega
  have hbase : readBase 10 (Nat.toDigits 10 n) = some (n : Int) := by
    unfold readBase
    split
    · next ds hds => cases hdigit '-' (by simp [hds])
    · next ds hds => cases hdigit '+' (by simp [hds])
    · simpa [hread] using hrange
  unfold literalValue?
  rw [hfilter]
  split
  · next hx => exact absurd hx (toList_toString n ▸ toList_toString_ne rfl _)
  · next hb => exact absurd hb (toList_toString n ▸ toList_toString_ne rfl _)
  · exact hbase

lemma afterDigit_of_ne (c : Char) {cs : List Char} (h : ∀ d ∈ cs.head?, d ≠ 'x' ∧ d ≠ 'b') :
    PieceClass.afterDigit c cs = (.text .decimal, runLength isDecimalPart cs) := by
  unfold PieceClass.afterDigit
  split
  · split
    · exact absurd rfl (h 'x' rfl).1
    · exact absurd rfl (h 'b' rfl).2
    · rfl
  · rfl

lemma Scans.number (n : Nat) {rest : List Char} (hrest : Closes rest) :
    Scans (toString n).toList rest [.ofLiteral (toString n)] := by
  obtain ⟨c,cs,hdigits,hc,hcs⟩ := exists_toDigits n
  have hclose : ∀ d ∈ rest.head?, isDecimalPart d = false ∧ d ≠ 'x' ∧ d ≠ 'b' := by
    intro d hd
    have hmem := hrest d hd
    simp only [mem_cons, not_mem_nil, or_false] at hmem
    obtain rfl | rfl | rfl := hmem <;> decide
  have hnext : ∀ d ∈ (cs ++ rest).head?, d ≠ 'x' ∧ d ≠ 'b' := by
    intro d hd
    cases cs with
    | nil => exact (hclose d hd).2
    | cons e es =>
      have he := hcs e (by simp)
      obtain rfl : e = d := by simpa using hd
      refine ⟨?_,?_⟩ <;> rintro rfl <;> revert he <;> decide
  have hpart : cs.all isDecimalPart := all_eq_true.2 fun d hd => by simp [isDecimalPart, hcs d hd]
  rw [ofLiteral_toString, toList_toString, hdigits]
  refine Scans.piece (.text .decimal) ?_ fun start => ?_
  · rw [Kind.ahead_of_isDigit hc, afterDigit_of_ne c hnext, Scans.runLength_append hpart fun d hd => (hclose d hd).1]
  · simp only [← hdigits, ← toList_toString, scanned?, String.ofList_toList]

/-! ### The tokens of a displayed type -/

lemma Scans.name {word : String} (hword : isWord word) {rest : List Char} (hrest : Closes rest) :
    Scans word.toList rest [.ofWord word] := by
  refine Scans.word hword fun c hc => ?_
  have hmem := hrest c hc
  simp only [mem_cons, not_mem_nil, or_false] at hmem
  obtain rfl | rfl | rfl := hmem <;> decide

lemma Ty.head_display (t : Ty) (rest : List Char) : ∀ c ∈ (t.display.toList ++ rest).head?, isBlank c = false := by
  cases t with
  | int i => cases i <;> simp [Ty.display, IntTy.name, isBlank]
  | reference mutable t => cases mutable <;> simp [Ty.display, isBlank]
  | function params ret => cases ret <;> simp [Ty.display, isBlank]
  | _ => simp [Ty.display, isBlank]

lemma Scans.typeName {name : String} (hname : isWord name) {rest : List Char} (hrest : Closes rest) :
    Scans name.toList rest (TypeExpr.spelling ⟨default,.named name⟩) :=
  Scans.name hname hrest

lemma head_toString (n : Nat) (rest : List Char) : ∀ c ∈ ((toString n).toList ++ rest).head?, isBlank c = false := by
  obtain ⟨c,cs,hdigits,hc,-⟩ := exists_toDigits n
  rw [toList_toString, hdigits]
  rintro d ⟨⟩
  refine Bool.eq_false_iff.2 fun hblank => ?_
  simp only [isBlank, Bool.or_eq_true, beq_iff_eq] at hblank
  obtain (((rfl | rfl) | rfl) | rfl) | rfl := hblank <;> revert hc <;> decide

lemma Scans.comma {rest : List Char} (h : ∀ c ∈ rest.head?, isBlank c = false) : Scans [',', ' '] rest [.punct .comma] :=
  (Scans.mark (by decide) _).append (Scans.space h)

lemma Ty.spelling_written_array (element : Ty) (size : Nat) : (Ty.array element size).written.spelling =
    [.punct .lbracket] ++ (element.written.spelling ++ ([.punct .comma] ++
      ([.ofLiteral (toString size)] ++ [.punct .rbracket]))) := by
  simp [Ty.written, TypeExpr.spelling, TypeForm.spelling, bracketed, separated, Expr.spelling, ExprForm.spelling]

lemma head_displayAll (t : Ty) (ts : List Ty) (rest : List Char) :
    ∀ c ∈ ((", ".intercalate (Ty.displayAll (t :: ts))).toList ++ rest).head?, isBlank c = false := by
  obtain ⟨cs,hcs⟩ : ∃ cs, (", ".intercalate (Ty.displayAll (t :: ts))).toList = t.display.toList ++ cs := by
    cases ts with
    | nil => exact ⟨[],by simp [Ty.displayAll]⟩
    | cons u ts => simp [Ty.displayAll, String.toList_intercalate]
  rw [hcs, append_assoc]
  exact t.head_display _

lemma Scans.signature {cs : List Char} {ps : List (List Kind)}
    (h : ∀ rest, Closes rest → Scans cs rest (separated ps)) (rest : List Char) :
    Scans ("def(".toList ++ (cs ++ [')'])) rest ([.keyword .defK] ++ parenthesized ps) := by
  have hdef : Scans "def".toList ('(' :: (cs ++ [')'] ++ rest)) [.keyword .defK] := Scans.word rfl (by simp; decide)
  have hparams := (h ([')'] ++ rest) (by simp [Closes])).append (Scans.mark (p := .rparen) (by decide) rest)
  have hall := hdef.append ((Scans.mark (c := '(') (p := .lparen) (by decide) _).append hparams)
  simpa [parenthesized] using hall

mutual

lemma Ty.scans_display : ∀ t : Ty, t.isValue → ∀ rest : List Char, Closes rest → Scans t.display.toList rest t.written.spelling
  | .error, h, _, _ | .void, h, _, _ => by cases h
  | .bool, _, _, hrest | .char, _, _, hrest | .string, _, _, hrest => Scans.typeName rfl hrest
  | .int i, _, _, hrest => Scans.typeName (by cases i <;> rfl) hrest
  | .array element size, h, rest, _ => by
    have helement := element.scans_display (by simpa [Ty.isValue] using h)
    have hchars : (Ty.array element size).display.toList =
        ['['] ++ (element.display.toList ++ ([',', ' '] ++ ((toString size).toList ++ [']']))) := by
      simp [Ty.display]
    rw [hchars, Ty.spelling_written_array]
    refine (Scans.mark (by decide) _).append (Scans.append (helement _ ?_) ?_)
    · simp [Closes]
    refine (Scans.comma ?_).append ((Scans.number size ?_).append (Scans.mark (by decide) _))
    · rw [append_assoc]
      exact head_toString size _
    · simp [Closes]
  | .reference false target, h, rest, hrest => by
    have htarget := target.scans_display (by simpa [Ty.isValue] using h) rest hrest
    have hchars : (Ty.reference false target).display.toList = ['^'] ++ target.display.toList := by
      simp [Ty.display]
    rw [hchars, Ty.written, TypeExpr.spelling, TypeForm.spelling]
    exact (Scans.mark (by decide) _).append htarget
  | .reference true target, h, rest, hrest => by
    have htarget := target.scans_display (by simpa [Ty.isValue] using h) rest hrest
    have hmut : Scans "mut".toList (' ' :: (target.display.toList ++ rest)) [.keyword .mutK] :=
      Scans.word rfl (by simp; decide)
    have hchars : (Ty.reference true target).display.toList = ['^'] ++ ("mut".toList ++ ([' '] ++ target.display.toList)) := by
      simp [Ty.display]
    rw [hchars, Ty.written, TypeExpr.spelling, TypeForm.spelling]
    exact (Scans.mark (by decide) _).append (hmut.append ((Scans.space (target.head_display rest)).append htarget))
  | .function params ret, h, rest, hrest => by
    simp only [Ty.isValue, Bool.and_eq_true, Bool.or_eq_true, beq_iff_eq] at h
    have hparams (rest : List Char) : Scans ("def(" ++ ", ".intercalate (Ty.displayAll params) ++ ")").toList rest
        ([.keyword .defK] ++ parenthesized (typeSpellings (writtenAll params))) := by
      simpa using Scans.signature (scans_displayAll params h.1) rest
    by_cases hvoid : ret = .void
    · subst hvoid
      rw [Ty.display, Ty.written, TypeExpr.spelling, TypeForm.spelling, typeAfter, append_nil]
      exact hparams rest
    · have hret := ret.scans_display (by tauto) rest hrest
      have hspace := Scans.space (ret.head_display rest)
      have hchars : (Ty.function params ret).display.toList = ("def(" ++ ", ".intercalate (Ty.displayAll params) ++ ")").toList ++
            ([' '] ++ (['-', '>'] ++ ([' '] ++ ret.display.toList))) := by
        simp [Ty.display_function hvoid]
      rw [hchars, Ty.written_function hvoid, TypeExpr.spelling, TypeForm.spelling, typeAfter]
      refine (hparams _).append ((Scans.space ?_).append ((Scans.arrow _).append (hspace.append hret)))
      simp [isBlank]

lemma scans_displayAll : ∀ ts : List Ty, Ty.areValues ts → ∀ rest : List Char, Closes rest →
    Scans (", ".intercalate (Ty.displayAll ts)).toList rest (separated (typeSpellings (writtenAll ts)))
  | [], _, rest, _ => by
    simpa [Ty.displayAll, writtenAll, typeSpellings, separated] using Scans.nil rest
  | [t], h, rest, hrest => by
    have ht := t.scans_display (by simpa [Ty.areValues] using h) rest hrest
    simpa [Ty.displayAll, writtenAll, typeSpellings, separated] using ht
  | t :: u :: ts, h, rest, hrest => by
    simp only [Ty.areValues, Bool.and_eq_true] at h
    have ht := t.scans_display h.1
    have hts := scans_displayAll (u :: ts) (by simp [Ty.areValues, h.2]) rest hrest
    have hchars : (", ".intercalate (Ty.displayAll (t :: u :: ts))).toList =
        t.display.toList ++ ([',', ' '] ++ (", ".intercalate (Ty.displayAll (u :: ts))).toList) := by
      simp [Ty.displayAll, String.toList_intercalate]
    have hkinds : separated (typeSpellings (writtenAll (t :: u :: ts))) =
        t.written.spelling ++ ([.punct .comma] ++ separated (typeSpellings (writtenAll (u :: ts)))) := by
      simp [writtenAll, typeSpellings, separated]
    rw [hchars, hkinds]
    refine (ht _ ?_).append ((Scans.comma ?_).append hts)
    · simp [Closes]
    · exact head_displayAll u ts rest

end

lemma Ty.holds_display (h : t.isValue) : (ofSource t.display).Holds t.written.spelling := by
  obtain ⟨ts,hts,hscan⟩ := t.scans_display h [] (by simp [Closes]) 0
  have hscanned : scan t.display = ts.map .ok := by
    simpa [scan, tile, tileFrom, scanFrom] using hscan
  refine ⟨?_,?_,rfl⟩
  · simp only [ofSource, hscanned, splitAtErrors_ok, hts]
  · simp only [ofSource, hscanned, splitAtErrors_ok]

/-! ### The tree of a displayed type -/

mutual

lemma Ty.printable_written : ∀ t : Ty, t.isValue → t.written.Printable
  | .error, h | .void, h => by cases h
  | .bool, _ => by
    rfl
  | .char, _ => by
    rfl
  | .string, _ => by
    rfl
  | .int i, _ => by
    cases i <;> rfl
  | .array element size, h => ⟨element.printable_written h,isLiteral_toString size⟩
  | .reference mutable target, h => target.printable_written h
  | .function params ret, h => by
    simp only [Ty.isValue, Bool.and_eq_true, Bool.or_eq_true, beq_iff_eq] at h
    by_cases hvoid : ret = .void
    · subst hvoid
      simp only [Ty.written, TypeExpr.Printable, TypeForm.Printable, optionalTypePrintable, and_true]
      exact printable_writtenAll params h.1
    · simp only [Ty.written_function hvoid, TypeExpr.Printable, TypeForm.Printable, optionalTypePrintable]
      exact ⟨printable_writtenAll params h.1,ret.printable_written (by tauto)⟩

lemma printable_writtenAll : ∀ ts : List Ty, Ty.areValues ts → typesPrintable (writtenAll ts)
  | [], _ => by simp only [writtenAll, typesPrintable]
  | t :: ts, h => by
    simp only [Ty.areValues, Bool.and_eq_true] at h
    exact ⟨t.printable_written h.1,printable_writtenAll ts h.2⟩

end

mutual

lemma Ty.bare_written : ∀ t : Ty, t.written.bare = t.written
  | .error | .void | .bool | .char | .string | .int i => by simp [Ty.written]
  | .array element size => by simp [Ty.written, element.bare_written]
  | .reference mutable target => by simp [Ty.written, target.bare_written]
  | .function params ret => by
    by_cases hvoid : ret = .void
    · subst hvoid
      simp [Ty.written, bare_writtenAll params]
    · simp [Ty.written_function hvoid, bare_writtenAll params, ret.bare_written]

lemma bare_writtenAll : ∀ ts : List Ty, respanTypes .bare (writtenAll ts) = writtenAll ts
  | [] => by simp [writtenAll]
  | t :: ts => by simp [writtenAll, t.bare_written, bare_writtenAll ts]

end

lemma TypeForm.of_bare_named {name : String} (h : f.bare = .named name) : f = .named name := by
  cases f <;> simp_all

lemma TypeForm.of_bare_array {element : TypeExpr} {size : Expr} (h : f.bare = .array element size) :
    ∃ element' size', f = .array element' size' ∧ element'.bare = element ∧ size'.bare = size := by
  cases f <;> simp_all

lemma TypeForm.of_bare_reference {mutable : Bool} {target : TypeExpr}
    (h : f.bare = .reference mutable target) : ∃ target', f = .reference mutable target' ∧ target'.bare = target := by
  cases f <;> simp_all

lemma TypeForm.of_bare_function {params : List TypeExpr} {ret : Option TypeExpr} (h : f.bare = .function params ret) :
    ∃ params' ret', f = .function params' ret' ∧ respanTypes .bare params' = params ∧ respanOptionalType .bare ret' = ret := by
  cases f <;> simp_all

lemma Expr.form_of_bare_int {e : Expr} {id : NodeId} {span : Span} {text : String}
    (h : e.bare = ⟨id,span,.int text⟩) : e.form = .int text := by
  obtain ⟨_,_,form⟩ := e
  cases form <;> simp_all

lemma Ty.parse_display (h : t.isValue) : ∃ e c', e.bare = t.written ∧ c'.Holds [] ∧
    (Rules.within (ofSource t.display).tokens.length).type (ofSource t.display) = .ok (e, c') := by
  have hholds := t.holds_display h
  have hlength : t.written.spelling.length ≤ (ofSource t.display).tokens.length := by
    rw [← hholds.kinds, length_map]
  have hreads := (Rules.complete_within _).type t.written [] (t.printable_written h) hlength rfl
  obtain ⟨e,c',ks,hrun,hc',he,rfl⟩ := hreads _ (by rwa [append_nil])
  exact ⟨e,c',he.trans t.bare_written,hc',hrun⟩

lemma TypeRegistry.Layered.part_mem {r : TypeRegistry} (h : r.Layered) {u : Ty} (ht : t ∈ r.types)
    (hu : u ∈ t.parts) : u ∈ r.types := by
  obtain ⟨id,hid⟩ := TypeRegistry.mem_types_iff.1 ht
  obtain ⟨p,-,hp⟩ := h.parts hid u hu
  exact TypeRegistry.mem_types_iff.2 ⟨p,hp⟩

/-! ### What a tree of a displayed type stands for -/

/-- While `P` holds of the numbered types, the computation gives `a`, and `P` holds of them afterwards. Nothing else changes
but what is recorded. -/
def Quietly {α : Type} (P : TypeRegistry → Prop) (m : Check α) (a : α) : Prop :=
  ∀ s : State, P s.types → ∃ s', m.run s = (.ok a, s') ∧ P s'.types ∧ s.Retyped s'

/-- Types that can be built while `P` holds of the numbered types. Their parts can be built, and the sizes of arrays are
in the range of 32 bits. -/
structure Buildable (P : TypeRegistry → Prop) (T : Ty → Prop) : Prop where
  part : ∀ {t u : Ty}, T t → u ∈ t.parts → T u
  size_lt : ∀ {element : Ty} {size : Nat}, T (.array element size) → size < 2 ^ 32
  intern : ∀ {t : Ty} {r : TypeRegistry}, T t → P r → P (r.intern t)

namespace Quietly

variable {α β : Type} {P : TypeRegistry → Prop} {m : Check α} {a : α}

lemma pure (a : α) : Quietly P (Pure.pure a) a :=
  fun s hs => ⟨s,rfl,hs,.refl s⟩

lemma bind {f : α → Check β} {b : β} (h : Quietly P m a) (hf : Quietly P (f a) b) : Quietly P (m >>= f) b := by
  intro s hs
  obtain ⟨s1,hrun,htypes,hkept⟩ := h s hs
  obtain ⟨s2,hrun',htypes',hkept'⟩ := hf s1 htypes
  refine ⟨s2,?_,htypes',hkept.trans hkept'⟩
  rw [Check.run_bind, hrun]
  exact hrun'

lemma built {T : Ty → Prop} (h : Buildable P T) (ht : T t) : Quietly P (liftM (Opal.built t)) t :=
  fun s hs => ⟨s.step (.built t),rfl,h.intern ht hs,_,_,_,rfl⟩

lemma begun (id : NodeId) (expected : Option Ty) : Quietly P (liftM (perform (.begun id expected))) () :=
  fun s hs => ⟨s.step (.begun id expected),rfl,hs,_,_,_,rfl⟩

lemma recordType (id : NodeId) (t : Ty) : Quietly P (liftM (Opal.recordType id t)) () :=
  fun s hs => ⟨s.step (.typed id t),rfl,hs,_,_,_,rfl⟩

lemma tryCatch {handler : Stop → Check α} (h : Quietly P m a) : Quietly P (tryCatch m handler) a := by
  intro s hs
  obtain ⟨s',hrun,hkept⟩ := h s hs
  exact ⟨s',by rw [Check.run_tryCatch, hrun],hkept⟩

end Quietly

lemma quietly_literal {P : TypeRegistry → Prop} (hn : n < 2 ^ 32) (span : Span) :
    Quietly P (literalOfType (toString n) false (some (.int .u32)) span) (.int n .u32) := by
  have hcontains : IntTy.u32.contains n = true := by
    have hmin : IntTy.u32.min = 0 := by decide
    have hmax : IntTy.u32.max = 2 ^ 32 - 1 := by decide
    rw [IntTy.contains_iff, hmin, hmax]
    omega
  simp only [literalOfType, literalValue?_toString hn, Bool.false_eq_true, if_false, hcontains, if_true]
  exact .pure _

/-- The size of a displayed array is the number that is displayed. -/
theorem quietly_arraySize {P : TypeRegistry → Prop} {size : Expr} (hn : n < 2 ^ 32)
    (h : size.form = .int (toString n)) (constants : Constants) (scope : ScopeId) :
    Quietly P (arraySize constants scope size) n := by
  obtain ⟨id,span,form⟩ := size
  obtain rfl : form = .int (toString n) := h
  have hvalue : Quietly P ((⟨id,span,.int (toString n)⟩ : Expr).constant constants scope (some (.int .u32))) (.int n .u32) := by
    refine (Quietly.begun id _).bind ((quietly_literal hn span).bind ?_)
    exact .bind (.pure ()) (.bind (.recordType id _) (.pure _))
  have hcontextual : (⟨id,span,.int (toString n)⟩ : Expr).isContextual = true := by
    rw [Expr.isContextual, ExprForm.isContextual]
  unfold arraySize
  rw [hcontextual, if_pos rfl]
  refine .bind (.tryCatch hvalue) ?_
  simp only
  rw [if_neg (by omega), if_neg]
  · exact .pure _
  · have : Int.pow 2 32 = 2 ^ 32 := rfl
    omega

lemma quietly_denoteName {P : TypeRegistry → Prop} {name : String} (hname : Ty.ofName name = .ok t)
    (ht : t ≠ .void) (position : Position) (span : Span) : Quietly P (denoteName name position span) t := by
  unfold denoteName
  rw [hname]
  refine .bind (.pure t) ?_
  rw [if_neg fun hvoid => ht hvoid.1]
  exact .pure t

mutual

lemma Ty.quietly_denote {P : TypeRegistry → Prop} {T : Ty → Prop} (hT : Buildable P T) (constants : Constants)
    (scope : ScopeId) (t : Ty) (h : t.isValue) (hmem : T t) (e : TypeExpr) (he : e.bare = t.written) (position : Position) :
    Quietly P (e.denote constants scope position) t := by
  obtain ⟨span,form⟩ := e
  cases t with
  | error | void => cases h
  | bool | char | string =>
    obtain rfl := TypeForm.of_bare_named (TypeExpr.mk.inj he).2
    exact quietly_denoteName rfl (by simp) position span
  | int i =>
    obtain rfl := TypeForm.of_bare_named (TypeExpr.mk.inj he).2
    exact quietly_denoteName (by cases i <;> rfl) (by simp) position span
  | array element size =>
    obtain ⟨element',size',rfl,helement,hsize⟩ := TypeForm.of_bare_array (TypeExpr.mk.inj he).2
    have hinner : T element := hT.part hmem (by simp [Ty.parts])
    have hdenote := element.quietly_denote hT constants scope (by simpa [Ty.isValue] using h) hinner
    refine (hdenote element' helement .value).bind ?_
    refine (quietly_arraySize (hT.size_lt hmem) (Expr.form_of_bare_int hsize) constants scope).bind ?_
    exact .built hT hmem
  | reference mutable target =>
    obtain ⟨target',rfl,htarget⟩ := TypeForm.of_bare_reference (TypeExpr.mk.inj he).2
    have hinner : T target := hT.part hmem (by simp [Ty.parts])
    have hdenote := target.quietly_denote hT constants scope (by simpa [Ty.isValue] using h) hinner
    exact (hdenote target' htarget .value).bind (.built hT hmem)
  | function params ret =>
    simp only [Ty.isValue, Bool.and_eq_true, Bool.or_eq_true, beq_iff_eq] at h
    have hinner : ∀ u ∈ ret :: params, T u := fun u hu => hT.part hmem hu
    have hparams := quietly_denoteAll hT constants scope params h.1 fun u hu => hinner u (.tail _ hu)
    by_cases hvoid : ret = .void
    · subst hvoid
      obtain ⟨params',ret',rfl,hps,hret⟩ := TypeForm.of_bare_function (TypeExpr.mk.inj he).2
      obtain rfl : ret' = none := by cases ret' <;> simp_all
      exact (hparams params' hps).bind (.built hT hmem)
    · rw [Ty.written_function hvoid] at he
      obtain ⟨params',ret',rfl,hps,hret⟩ := TypeForm.of_bare_function (TypeExpr.mk.inj he).2
      obtain ⟨e,rfl,he'⟩ : ∃ e, ret' = some e ∧ e.bare = ret.written := by cases ret' <;> simp_all
      have hresult := ret.quietly_denote hT constants scope (by tauto) (hinner ret (.head _)) e he' .result
      exact (hparams params' hps).bind (hresult.bind (.built hT hmem))

lemma quietly_denoteAll {P : TypeRegistry → Prop} {T : Ty → Prop} (hT : Buildable P T) (constants : Constants)
    (scope : ScopeId) : ∀ ts : List Ty, Ty.areValues ts → (∀ t ∈ ts, T t) →
      ∀ es : List TypeExpr, respanTypes .bare es = writtenAll ts → Quietly P (denoteAll constants scope es) ts
  | [], _, _, es, hes => by
    obtain rfl : es = [] := by cases es <;> simp_all [writtenAll]
    exact .pure []
  | t :: ts, h, hmem, es, hes => by
    simp only [Ty.areValues, Bool.and_eq_true] at h
    obtain ⟨e,es,rfl,he,hes⟩ : ∃ e es', es = e :: es' ∧ e.bare = t.written ∧ respanTypes .bare es' = writtenAll ts := by
      cases es <;> simp_all [writtenAll]
    obtain ⟨ht,hts⟩ := forall_mem_cons.1 hmem
    have hfirst := t.quietly_denote hT constants scope h.1 ht e he .value
    exact hfirst.bind ((quietly_denoteAll hT constants scope ts h.2 hts es hes).bind (.pure (t :: ts)))

end

/-! ### Reading back -/

/-- The sizes of the arrays are in the range of 32 bits. -/
def TypeRegistry.Sized (r : TypeRegistry) : Prop :=
  ∀ element size, Ty.array element size ∈ r.types → size < 2 ^ 32

lemma TypeRegistry.Layered.buildable {r : TypeRegistry} (hr : r.Layered) (hsized : r.Sized) :
    Buildable (· = r) (· ∈ r.types) where
  part := hr.part_mem
  size_lt h := hsized _ _ h
  intern := by
    rintro t _ ht rfl
    exact TypeRegistry.intern_of_mem ht

/-- An entry that can be asked for: sizes are in the range of 32 bits. -/
def TypeEntry.InRange : TypeEntry → Prop
  | .compound (.array _ size) => size < 2 ^ 32
  | _ => True

lemma TypeEntry.size_lt {part : TypeId → Option Ty} {e : TypeEntry} (he : e.InRange) {element : Ty} {size : Nat}
    (h : e.type? part = some (.array element size)) : size < 2 ^ 32 := by
  cases e with
  | basic b =>
    have hparts := Ty.parts_of_mem_basic b.2
    rw [Option.some.inj h] at hparts
    cases hparts
  | compound shape =>
    cases shape with
    | array p n =>
      obtain ⟨e,-,heq⟩ := map_eq_some_iff.1 h
      cases heq
      exact he
    | reference mutable p =>
      obtain ⟨u,-,heq⟩ := map_eq_some_iff.1 h
      cases heq
    | function ps p =>
      obtain ⟨us,-,h⟩ := bind_eq_some_iff.1 h
      obtain ⟨u,-,heq⟩ := map_eq_some_iff.1 h
      cases heq

namespace TypeRegistry

variable {r r' : TypeRegistry} {ids : List TypeId} {calls : List TypeEntry}

lemma sized_initial : initial.Sized := by
  intro element size h
  simp [initial, basic] at h

lemma Sized.call (h : r.Sized) {e : TypeEntry} (he : e.InRange) {id : TypeId} (hcall : r.call e = some (id, r')) :
    r'.Sized := by
  intro element size hmem
  obtain ⟨ty,hty,rfl,-⟩ := call_eq_some hcall
  obtain ⟨i,hi⟩ := mem_types_iff.1 hmem
  obtain hold | ⟨rfl,-,-⟩ := get?_intern_eq_some hi
  · exact h element size (mem_types_iff.2 ⟨i,hold⟩)
  · exact TypeEntry.size_lt he hty

lemma Sized.run (h : r.Sized) (hcalls : ∀ e ∈ calls, e.InRange) (hrun : r.run calls = some (ids, r')) : r'.Sized := by
  induction calls generalizing r ids with
  | nil =>
    cases hrun
    exact h
  | cons e es ih =>
    obtain ⟨he,hes⟩ := forall_mem_cons.1 hcalls
    obtain ⟨q,hq,hrun⟩ := bind_eq_some_iff.1 hrun
    obtain ⟨q',hq',hrun⟩ := map_eq_some_iff.1 hrun
    cases hrun
    exact ih (h.call he hq) hes hq'

/-- The text of a type that values have, in a registry that was asked for any types before, is read as this type: it is
parsed to its end, and from every scope it stands for the type, without an error and without a new number. -/
theorem display_read_back (hrun : initial.run calls = some (ids, r)) (hcalls : ∀ e ∈ calls, e.InRange) {id : TypeId}
    {t : Ty} (hid : r.get? id = some t) (ht : t.isValue) :
    ∃ e c', (Rules.within (ofSource t.display).tokens.length).type (ofSource t.display) = .ok (e, c') ∧
      c'.Holds [] ∧ ∀ constants scope (s : State), s.types = r →
        ∃ s', (e.denote constants scope .value).run s = (.ok t, s') ∧ s'.types = r ∧ s'.types.idOf? t = some id ∧
          s'.scopes = s.scopes ∧ s'.errors = s.errors := by
  have hr : r.Layered := (layered_initial.run hrun).1
  have hsized : r.Sized := sized_initial.run hcalls hrun
  obtain ⟨e,c',he,hend,hparse⟩ := t.parse_display ht
  refine ⟨e,c',hparse,hend,fun constants scope s hs => ?_⟩
  obtain ⟨s',hdenote,htypes,_,_,_,rfl⟩ :=
    t.quietly_denote (hr.buildable hsized) constants scope ht (mem_types_iff.2 ⟨id,hid⟩) e he .value s hs
  exact ⟨_,hdenote,htypes,htypes ▸ hr.idOf?_eq_some_iff.2 hid,rfl,rfl⟩

/-- References to large arrays, functions that take one and return nothing, and functions that take and return those. -/
def nestedTypes : TypeRegistry :=
  let bytes := .reference true (.array (.int .u8) 4294967295)
  let sink := .function [bytes] .void
  ⟨basic ++ #[.array (.int .u8) 4294967295, bytes, sink, .function [.bool, sink] sink]⟩

theorem display_read_back_nested :
    initial.run [.compound (.array 5 4294967295), .compound (.reference true 11), .compound (.function [12] 1),
      .compound (.function [2, 13] 13)] = some ([11, 12, 13, 14], nestedTypes) ∧
    ∃ t e c', nestedTypes.get? 14 = some t ∧ t.display = "def(bool, def(^mut [u8, 4294967295])) -> def(^mut [u8, 4294967295])" ∧
      (Rules.within (ofSource t.display).tokens.length).type (ofSource t.display) = .ok (e, c') ∧
      ∃ s', (e.denote (fun _ => Check.blocked) 0 .value).run { State.initial with types := nestedTypes } =
        (.ok t, s') ∧ s'.types = nestedTypes ∧ s'.errors = #[] := by
  have hrun : initial.run [.compound (.array 5 4294967295), .compound (.reference true 11), .compound (.function [12] 1),
      .compound (.function [2, 13] 13)] = some ([11, 12, 13, 14], nestedTypes) := by decide +kernel
  let sink : Ty := .function [.reference true (.array (.int .u8) 4294967295)] .void
  have hid : nestedTypes.get? 14 = some (.function [.bool, sink] sink) := rfl
  obtain ⟨e,c',hparse,-,hdenote⟩ := display_read_back hrun (by simp [TypeEntry.InRange]) hid (by decide)
  obtain ⟨s',hs',htypes,-,-,herrors⟩ :=
    hdenote (fun _ => Check.blocked) 0 { State.initial with types := nestedTypes } rfl
  exact ⟨hrun,_,e,c',hid,by decide +kernel,hparse,s',hs',htypes,herrors⟩

end TypeRegistry

end Opal
