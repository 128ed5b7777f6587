import Opal.Syntax.Cursor
import Opal.Syntax.Spelling

/-!
# Lexemes

The text of a lexeme, with a space or the end of the input after it, is cut off as one piece, so lexemes with spaces between
them are read back one by one.
-/

namespace Opal

open List PieceClass Escape Piece

variable {c : Char} {cs rest : List Char} {p : Char → Bool} {name text : String}

/-- Whether a text is a word: a keyword or an identifier. -/
def isWord (text : String) : Bool :=
  match text.toList with
  | [] => false
  | c :: cs => isIdentStart c && cs.all isIdentPart

/-- Whether a text is that of an identifier: a word other than the keywords. -/
def isIdentifier (name : String) : Bool :=
  isWord name && (Keyword.ofSpelling? name).isNone

/-- Whether a declaration can be written with this name. The words `true` and `false` are let through for the
declaration to be rejected by name. -/
def isDeclarable (name : String) : Bool :=
  isIdentifier name || name == "true" || name == "false"

/-- Whether a text is that of an integer literal. -/
def isLiteral (text : String) : Bool :=
  match text.toList with
  | '0' :: 'x' :: cs => !cs.isEmpty && cs.all isHexPart
  | '0' :: 'b' :: cs => !cs.isEmpty && cs.all isBinaryPart
  | c :: cs => isDigit c && cs.all isDecimalPart
  | [] => false

/-- What may stand after a text that is written with spaces between its tokens: nothing, or a space. -/
def IsApart (rest : List Char) : Prop :=
  rest = [] ∨ ∃ cs, rest = ' ' :: cs

/-- The text of a kind is read as a token of this kind, provided that it stands apart from what follows. -/
def Kind.IsLexeme (k : Kind) : Prop :=
  ∃ cls c cs, k.display.toList = c :: cs ∧ (∀ rest, IsApart rest → ahead c (cs ++ rest) = (cls, cs.length)) ∧
    ∀ start, scanned? start ⟨cls,c :: cs⟩ = some (.ok ⟨k,⟨start,start + byteLength (c :: cs)⟩⟩)

namespace Piece

theorem tile_append {cls : PieceClass} (h : ahead c (cs ++ rest) = (cls, cs.length)) :
    tile (c :: cs ++ rest) = ⟨cls,c :: cs⟩ :: tile rest := by
  rw [tile, cons_append, tileFrom]
  simp only [h, take_left, tileFrom_eq_tile_drop, drop_left]

end Piece

namespace Kind

theorem IsLexeme.head_not_blank {k : Kind} (h : k.IsLexeme) : ∃ c cs, k.display.toList = c :: cs ∧ isBlank c = false := by
  obtain ⟨cls,c,cs,hdisplay,hahead,hscanned⟩ := h
  refine ⟨c,cs,hdisplay,Bool.eq_false_iff.2 fun hc => ?_⟩
  have hgap := hahead [] (.inl rfl)
  rw [ahead, if_pos hc] at hgap
  obtain ⟨rfl,-⟩ := Prod.mk.inj hgap
  cases hscanned 0

/-- Lexemes with spaces between them are scanned one by one. -/
theorem scanFrom_spaced : ∀ {ks : List Kind}, (∀ k ∈ ks, k.IsLexeme) → ∀ start, ∃ ts : List Token, ts.map Token.kind = ks ∧
      scanFrom start (tile ([' '].intercalate (ks.map fun k => k.display.toList))) = ts.map .ok
  | [], _, _ => ⟨[],rfl,rfl⟩
  | [k], h, start => by
    obtain ⟨cls,c,cs,hdisplay,hahead,hscanned⟩ := h k (by simp)
    have htile := tile_append (hahead [] (.inl rfl))
    rw [append_nil] at htile
    refine ⟨[⟨k,⟨start,start + byteLength (c :: cs)⟩⟩],rfl,?_⟩
    rw [map_singleton, intercalate_singleton, hdisplay, htile, scanFrom, hscanned]
    rfl
  | k :: l :: ks, h, start => by
    obtain ⟨cls,c,cs,hdisplay,hahead,hscanned⟩ := h k (by simp)
    obtain ⟨d,ds,hd,hblank⟩ := (h l (by simp)).head_not_blank
    let rest := [' '].intercalate ((l :: ks).map fun k => k.display.toList)
    obtain ⟨ts,hts,hscan⟩ := scanFrom_spaced (fun k' hk' => h k' (mem_cons_of_mem k hk'))
      (start + byteLength (c :: cs) + byteLength [' '])
    refine ⟨⟨k,⟨start,start + byteLength (c :: cs)⟩⟩ :: ts,by simp [hts],?_⟩
    -- The next lexeme does not start with white space, so the gap before it is the one space.
    have hgap : ahead ' ' ([] ++ rest) = (.gap, 0) := by
      obtain ⟨es,hes⟩ : ∃ es, rest = d :: es := by
        cases ks <;> simp [rest, hd, intercalate_cons_cons]
      rw [nil_append, hes, ahead, if_pos (by decide), runLength, if_neg (by simp [hblank])]
    have htile : tile (c :: cs ++ ' ' :: rest) = ⟨cls,c :: cs⟩ :: ⟨.gap,[' ']⟩ :: tile rest := by
      rw [tile_append (hahead _ (.inr ⟨rest,rfl⟩)), ← tile_append hgap]
      rfl
    have hjoin : [' '].intercalate ((k :: l :: ks).map fun k => k.display.toList) = c :: cs ++ ' ' :: rest := by
      simp [rest, hdisplay, intercalate_cons_cons]
    rw [hjoin, htile, scanFrom, scanFrom, hscanned, hscan]
    rfl

/-! ### Words and operators -/

theorem runLength_append (hcs : cs.all p) (hp : p ' ' = false) (h : IsApart rest) : runLength p (cs ++ rest) = cs.length := by
  induction cs with
  | nil =>
    obtain rfl | ⟨rest,rfl⟩ := h
    · rfl
    · simp [runLength, hp]
  | cons c cs ih =>
    simp only [all_cons, Bool.and_eq_true] at hcs
    simp [runLength, hcs.1, ih hcs.2]

theorem ahead_of_class (h : p c) (hp : [' ', '\t', '\n', '\r', '\x0c', '/', '"', '\''].all (!p ·)) (cs : List Char) :
    PieceClass.ahead c cs = if isDigit c then PieceClass.afterDigit c cs
      else if isIdentStart c then (.word, runLength isIdentPart cs) else PieceClass.afterOperator c cs := by
  have hne : ∀ d ∈ [' ', '\t', '\n', '\r', '\x0c', '/', '"', '\''], c ≠ d := by
    rintro d hd rfl
    have := all_eq_true.1 hp c hd
    simp [h] at this
  simp [ahead, isBlank, hne]

theorem ahead_of_isDigit (h : isDigit c) (cs : List Char) : ahead c cs = afterDigit c cs := by
  rw [ahead_of_class h (by decide), if_pos h]

theorem isDigit_of_isIdentStart (h : isIdentStart c) : isDigit c = false := by
  refine Bool.eq_false_iff.2 fun hdigit => ?_
  simp only [isIdentStart, isDigit, Bool.or_eq_true, Bool.and_eq_true, decide_eq_true_eq, beq_iff_eq] at h hdigit
  obtain (⟨ha,-⟩ | ⟨ha,-⟩) | rfl := h
  · exact absurd (Char.le_trans ha hdigit.2) (by decide)
  · exact absurd (Char.le_trans ha hdigit.2) (by decide)
  · exact absurd hdigit.2 (by decide)

theorem ahead_of_isIdentStart (h : isIdentStart c) (cs : List Char) :
    ahead c cs = (.word, runLength isIdentPart cs) := by
  rw [ahead_of_class h (by decide), isDigit_of_isIdentStart h, if_neg Bool.false_ne_true, if_pos h]

theorem display_ofWord (word : String) : (Kind.ofWord word).display = word := by
  unfold Kind.ofWord
  cases h : Keyword.ofSpelling? word with
  | none => rfl
  | some k => exact beq_iff_eq.1 (find?_some h :)

theorem isLexeme_ofWord {word : String} (h : isWord word) : (Kind.ofWord word).IsLexeme := by
  unfold isWord at h
  split at h
  · cases h
  · next c cs hword =>
    simp only [Bool.and_eq_true] at h
    refine ⟨.word,c,cs,by rw [display_ofWord, hword],fun rest hrest => ?_,fun start => ?_⟩
    · rw [ahead_of_isIdentStart h.1, runLength_append h.2 (by decide) hrest]
    · rw [← hword]
      simp [scanned?]

theorem isLexeme_keyword (k : Keyword) : (Kind.keyword k).IsLexeme := by
  have hword : Kind.keyword k = .ofWord k.spelling := by cases k <;> rfl
  rw [hword]
  exact isLexeme_ofWord (by cases k <;> rfl)

theorem ofWord_of_isIdentifier (h : isIdentifier name) : Kind.ofWord name = .text .identifier name := by
  simp only [isIdentifier, Bool.and_eq_true, Option.isNone_iff_eq_none] at h
  rw [Kind.ofWord, h.2]

theorem isLexeme_of_isDeclarable (h : isDeclarable name) : (Kind.ofWord name).IsLexeme := by
  simp only [isDeclarable, isIdentifier, Bool.or_eq_true, Bool.and_eq_true, beq_iff_eq] at h
  obtain (⟨h,-⟩ | rfl) | rfl := h
  · exact isLexeme_ofWord h
  · exact isLexeme_keyword .trueK
  · exact isLexeme_keyword .falseK

theorem punct_of_chars (p : Punct) : (match p.spelling.toList with
      | [c] => Punct.single? c
      | [c, d] => Punct.double? c d
      | _ => none) = some p := by
  cases p <;> rfl

theorem ahead_single {p : Punct} (h : Punct.single? c = some p) (hrest : IsApart rest) :
    ahead c rest = (.punct p, 0) := by
  unfold Punct.single? at h
  split at h <;> cases h
  all_goals obtain rfl | ⟨rest,rfl⟩ := hrest <;> rfl

theorem ahead_double {p : Punct} {d : Char} (h : Punct.double? c d = some p) (rest : List Char) :
    ahead c (d :: rest) = (.punct p, 1) := by
  unfold Punct.double? at h
  split at h <;> cases h
  all_goals rfl

theorem isLexeme_punct (p : Punct) : (Kind.punct p).IsLexeme := by
  have hp := punct_of_chars p
  split at hp
  · next c hc =>
    exact ⟨.punct p,c,[],hc,fun rest hrest => ahead_single hp hrest,fun start => rfl⟩
  · next c d hcd =>
    exact ⟨.punct p,c,[d],hcd,fun rest hrest => ahead_double hp rest,fun start => rfl⟩
  · cases hp

/-! ### Literals -/

theorem isLexeme_based {mark : Char} {cls : TextClass}
    (htext : text.toList = '0' :: mark :: cs) (hp : p ' ' = false) (hne : cs ≠ []) (hcs : cs.all p)
    (hafter : ∀ ds, runLength p ds ≠ 0 → afterDigit '0' (mark :: ds) = (.text cls, runLength p ds + 1)) :
    (Kind.text cls text).IsLexeme := by
  refine ⟨.text cls,'0',mark :: cs,htext,fun rest hrest => ?_,fun start => ?_⟩
  · have hlength := runLength_append hcs hp hrest
    rw [ahead_of_isDigit (by decide), cons_append, hafter _ (by simpa [hlength] using hne), hlength, length_cons]
  · simp [scanned?, ← htext]

theorem afterDigit_decimal (c : Char) (hcs : cs.all isDecimalPart) (hrest : IsApart rest) :
    afterDigit c (cs ++ rest) = (.text .decimal, runLength isDecimalPart (cs ++ rest)) := by
  have hmark : ∀ d ds, cs ++ rest = d :: ds → isDecimalPart d ∨ d = ' ' := by
    intro d ds hd
    cases cs with
    | nil =>
      obtain rfl | ⟨rest,rfl⟩ := hrest
      · cases hd
      · cases hd; exact .inr rfl
    | cons e es =>
      cases hd
      simp only [all_cons, Bool.and_eq_true] at hcs
      exact .inl hcs.1
  unfold afterDigit
  split
  · split
    · next ds hds => simpa [isDecimalPart, isDigit] using hmark _ _ hds
    · next ds hds => simpa [isDecimalPart, isDigit] using hmark _ _ hds
    · rfl
  · rfl

theorem isLexeme_ofLiteral (h : isLiteral text) : (Kind.ofLiteral text).IsLexeme := by
  unfold isLiteral at h
  unfold Kind.ofLiteral
  split at h
  · next cs htext =>
    simp only [Bool.and_eq_true, Bool.not_eq_true', isEmpty_eq_false_iff] at h
    rw [htext]
    exact isLexeme_based htext (by decide) h.1 h.2 fun ds hds => by simp [afterDigit, hds]
  · next cs htext =>
    simp only [Bool.and_eq_true, Bool.not_eq_true', isEmpty_eq_false_iff] at h
    rw [htext]
    exact isLexeme_based htext (by decide) h.1 h.2 fun ds hds => by simp [afterDigit, hds]
  · next c cs hx hb htext =>
    simp only [Bool.and_eq_true] at h
    rw [htext]
    -- A decimal literal has no mark after a leading zero.
    split
    · next heq => cases heq; exact (hx _ rfl rfl).elim
    · next heq => cases heq; exact (hb _ rfl rfl).elim
    refine ⟨.text .decimal,c,cs,htext,fun rest hrest => ?_,fun start => ?_⟩
    · rw [ahead_of_isDigit h.1, afterDigit_decimal c h.2 hrest, runLength_append h.2 (by decide) hrest]
    · simp [scanned?, ← htext]
  · cases h

theorem unquoted_literal (quote : Char) (cs : List Char) : unquoted (literal quote cs) = encode cs := by
  simp [unquoted, literal]

theorem stringBody_encode (cs rest : List Char) : stringBody (encode cs ++ '"' :: rest) = (Escape.encode cs).length := by
  induction cs with
  | nil => cases rest <;> rfl
  | cons c cs ih =>
    rw [Escape.encode_cons, List.append_assoc, List.length_append, ← ih]
    obtain ⟨d,ds,hd⟩ : ∃ d ds, Escape.encode cs ++ '"' :: rest = d :: ds := by
      cases encode cs <;> simp
    unfold written
    split
    case h_8 => simp_all [stringBody]; omega
    all_goals simp [stringBody]; omega

theorem isLexeme_ofString (s : String) : (Kind.ofString s).IsLexeme := by
  refine ⟨.text .string,'"',Escape.encode s.toList ++ ['"'],?_,fun rest hrest => ?_,fun start => ?_⟩
  · simp [Kind.ofString, Kind.display, literal]
  · have hbody := stringBody_encode s.toList rest
    simp [ahead, isBlank, afterDoubleQuote, hbody]
  · simp [scanned?, Kind.ofString, literal]

theorem isLexeme_ofChar (c : Char) : (Kind.ofChar c).IsLexeme := by
  refine ⟨.text .char,'\'',encode [c] ++ ['\''],?_,fun rest hrest => ?_,fun start => ?_⟩
  · simp [Kind.ofChar, Kind.display, literal]
  · change afterSingleQuote _ = _
    simp only [encode_cons, encode_nil, append_nil]
    unfold written
    split
    case h_8 => simp_all [afterSingleQuote]
    all_goals rfl
  · simp [scanned?, Kind.ofChar, literal]

end Kind

theorem splitAtErrors_ok (ts : List Token) : splitAtErrors (ts.map .ok) = (ts, []) := by
  induction ts with
  | nil => rfl
  | cons t ts ih => simp [splitAtErrors, ih]

theorem Cursor.ofSource_spaced {ks : List Kind} (h : ∀ k ∈ ks, k.IsLexeme) :
    (Cursor.ofSource (" ".intercalate (ks.map Kind.display))).tokens.map Token.kind = ks ∧
      (Cursor.ofSource (" ".intercalate (ks.map Kind.display))).faults = [] := by
  obtain ⟨ts,hts,hscan⟩ := Kind.scanFrom_spaced h 0
  have hchars : (" ".intercalate (ks.map Kind.display)).toList = [' '].intercalate (ks.map fun k => k.display.toList) := by
    simp [String.toList_intercalate, Function.comp_def]
  simp only [Cursor.ofSource, scan, hchars, hscan, splitAtErrors_ok]
  exact ⟨hts,trivial⟩

end Opal
