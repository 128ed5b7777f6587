import Mathlib.Computability.Language
import Mathlib.Data.String.Basic
import Opal.Proofs.ConservedTokens
import Opal.Proofs.Lexemes

/-!
# Tokens, errors and gaps tile the source

A source text is made of tokens, of runs of characters that form none, and of gaps between them. Each token and each error
quotes the characters it covers.
-/

namespace Opal

open Language Computability List

variable {c : Char} {after before : List Char} {p : Piece} {s : Scanned} {source : String}

lemma byteLength_pos {cs : List Char} (h : cs ≠ []) : 0 < byteLength cs := by
  cases cs with
  | nil => exact absurd rfl h
  | cons c cs => exact Nat.add_pos_left c.utf8Size_pos _

/-! ### White space and comments -/

/-- A single character as `p` says. -/
def oneOf (p : Char → Bool) : Language Char :=
  {cs | ∃ c, p c = true ∧ cs = [c]}

def blankRun : Language Char :=
  oneOf isBlank * (oneOf isBlank)∗

/-- Two slashes, and characters of the same line. -/
def lineComment : Language Char :=
  {['/', '/']} * (oneOf (· != '\n'))∗

/-- What may stand inside a block comment: characters, where a star is followed by another character than a slash. -/
def commentText : Language Char :=
  (oneOf (· != '*') + {['*']} * oneOf (· != '/'))∗

/-- A comment between its marks. -/
def blockComment : Language Char :=
  {['/', '*']} * commentText * {['*', '/']}

/-- White space and comments. -/
def gapText : Language Char :=
  (blankRun + lineComment + blockComment)∗

lemma append_mem_kstar {l : Language Char} {as bs : List Char} (ha : as ∈ l) (hb : bs ∈ l∗) : as ++ bs ∈ l∗ :=
  have hle : l * l∗ ≤ l∗ := mul_kstar_le_kstar
  hle (append_mem_mul ha hb)

lemma singleton_mem_oneOf {p : Char → Bool} (h : p c = true) : [c] ∈ oneOf p :=
  ⟨c,h,rfl⟩

lemma self_mem_singleton (cs : List Char) : cs ∈ ({cs} : Language Char) := rfl

lemma take_runLength_mem (p : Char → Bool) (cs : List Char) : cs.take (runLength p cs) ∈ (oneOf p)∗ := by
  induction cs with
  | nil => exact nil_mem_kstar _
  | cons c cs ih =>
    rw [runLength]
    split
    · next hc => exact append_mem_kstar (singleton_mem_oneOf hc) ih
    · exact nil_mem_kstar _

lemma take_commentBody_mem (cs : List Char) : cs.take (commentBody cs) ∈ commentText := by
  have plain {c : Char} (hc : ¬ (c == '*') = true) : [c] ∈ oneOf (· != '*') + {['*']} * oneOf (· != '/') :=
    .inl (singleton_mem_oneOf (by simpa using hc))
  fun_induction commentBody cs with
  | case1 | case2 => exact nil_mem_kstar _
  | case3 c hc => exact append_mem_kstar (plain hc) (nil_mem_kstar _)
  | case4 => exact nil_mem_kstar _
  | case5 c d cs hc hd ih =>
    obtain rfl := beq_iff_eq.1 hc
    have hstar : ['*', d] ∈ oneOf (· != '*') + {['*']} * oneOf (· != '/') :=
      .inr (append_mem_mul (self_mem_singleton ['*']) (singleton_mem_oneOf (by simpa using hd)))
    exact append_mem_kstar hstar ih
  | case6 c d cs hc ih => exact append_mem_kstar (plain hc) ih

/-! ### Literals in quotes -/

/-- What stands for one character between quotes: a character other than the quote and a backslash, or a backslash and
another character of the same line. -/
def quotedUnit (quote : Char) : Language Char :=
  oneOf (fun c => c != quote && c != '\\') + {['\\']} * oneOf (· != '\n')

/-- A text of `body` between two quotes. -/
def quotedText (quote : Char) (body : Language Char) : Language Char :=
  {cs | ∃ text ∈ body, cs = quote :: text ++ [quote]}

lemma take_stringBody_mem (cs : List Char) : cs.take (stringBody cs) ∈ (quotedUnit '"')∗ := by
  have plain {c : Char} (hc : c ≠ '"' ∧ c ≠ '\\') : [c] ∈ quotedUnit '"' :=
    .inl (singleton_mem_oneOf (by simpa using hc))
  fun_induction stringBody cs with
  | case3 c hc => exact append_mem_kstar (plain (by simpa using hc)) (Language.nil_mem_kstar _)
  | case6 c d cs _ hc hd ih =>
    obtain rfl := beq_iff_eq.1 hc
    have hescape : ['\\', d] ∈ quotedUnit '"' :=
      .inr (append_mem_mul (self_mem_singleton ['\\']) (singleton_mem_oneOf (by simpa using hd)))
    exact append_mem_kstar hescape ih
  | case7 c d cs hquote hc ih => exact append_mem_kstar (plain ⟨by simpa using hquote,by simpa using hc⟩) ih
  | _ => exact nil_mem_kstar _

/-! ### One piece -/

/-- The class of a token that carries a text is told by the text, and the token is not the end of the input. -/
def Kind.IsPlain : Kind → Prop
  | .text .identifier name => Kind.ofWord name = .text .identifier name
  | .text .decimal digits => Kind.ofLiteral digits = .text .decimal digits
  | .text .hex digits => Kind.ofLiteral digits = .text .hex digits
  | .text .binary digits => Kind.ofLiteral digits = .text .binary digits
  | .text .char quoted => quoted.toList ∈ quotedText '\'' (quotedUnit '\'')
  | .text .string quoted => quoted.toList ∈ quotedText '"' (quotedUnit '"')∗
  | .eof => False
  | _ => True

lemma Kind.isPlain_ofWord (word : String) : (Kind.ofWord word).IsPlain := by
  unfold Kind.ofWord
  split
  · trivial
  · next h => simp [Kind.IsPlain, Kind.ofWord, h]

/-- What the characters of a piece have to be for its class: those of a gap are white space or a comment, those of
an operator spell it, and those of a literal tell its class. -/
def PieceClass.Admits : PieceClass → List Char → Prop
  | gap, cs => cs ∈ blankRun + lineComment + blockComment
  | punct p, cs => p.spelling.toList = cs
  | text cls, cs => (Kind.text cls (String.ofList cs)).IsPlain
  | word, _ | fault, _ => True

namespace PieceClass

lemma admits_afterSlash (cs : List Char) : (afterSlash cs).1.Admits ('/' :: cs.take (afterSlash cs).2) := by
  unfold afterSlash
  split
  · next cs =>
    exact .inl (.inr (append_mem_mul (self_mem_singleton ['/', '/']) (take_runLength_mem _ cs)))
  · next cs =>
    dsimp only
    split
    · next rest hdrop =>
      have htake : cs.take (commentBody cs + 2) = cs.take (commentBody cs) ++ ['*', '/'] := by
        rw [take_add, hdrop]
        rfl
      have hbody := append_mem_mul (self_mem_singleton ['/', '*']) (take_commentBody_mem cs)
      have hcomment := append_mem_mul hbody (self_mem_singleton ['*', '/'])
      rw [append_assoc, ← htake] at hcomment
      exact .inr hcomment
    · trivial
  · rfl

lemma admits_afterDoubleQuote (cs : List Char) : (afterDoubleQuote cs).1.Admits ('"' :: cs.take (afterDoubleQuote cs).2) := by
  unfold afterDoubleQuote
  dsimp only
  split
  · next rest hdrop =>
    refine ⟨cs.take (stringBody cs),take_stringBody_mem cs,String.toList_ofList.trans ?_⟩
    rw [List.take_add, hdrop]
    rfl
  · trivial

lemma admits_afterSingleQuote (cs : List Char) : (afterSingleQuote cs).1.Admits ('\'' :: cs.take (afterSingleQuote cs).2) := by
  unfold afterSingleQuote
  split
  · next c _ =>
    split
    · trivial
    · next hc =>
      have hunit : ['\\', c] ∈ quotedUnit '\'' :=
        .inr (Language.append_mem_mul (self_mem_singleton ['\\']) (singleton_mem_oneOf (by simpa using hc)))
      exact ⟨_,hunit,String.toList_ofList⟩
  · next c _ _ =>
    split
    · trivial
    · next hc => exact ⟨[c],.inl (singleton_mem_oneOf (by simpa using hc)),String.toList_ofList⟩
  · trivial

lemma admits_decimal (c : Char) (cs : List Char) : (text .decimal).Admits (c :: cs.take (runLength isDecimalPart cs)) := by
  have hpart : ∀ d ∈ (cs.take (runLength isDecimalPart cs)).head?, isDecimalPart d = true := by
    intro d hd
    cases cs with
    | nil => cases hd
    | cons e cs =>
      rw [runLength] at hd
      split at hd
      · next he =>
        cases hd
        exact he
      · cases hd
  generalize cs.take (runLength isDecimalPart cs) = ds at hpart ⊢
  change Kind.ofLiteral _ = _
  unfold Kind.ofLiteral
  rw [String.toList_ofList]
  split
  · next h =>
    cases h
    cases hpart 'x' rfl
  · next h =>
    cases h
    cases hpart 'b' rfl
  · rfl

lemma admits_afterDigit (c : Char) (cs : List Char) : (afterDigit c cs).1.Admits (c :: cs.take (afterDigit c cs).2) := by
  unfold afterDigit
  split
  · next hzero =>
    obtain rfl := beq_iff_eq.1 hzero
    split
    · split
      · exact admits_decimal _ _
      · simp [Admits, Kind.IsPlain, Kind.ofLiteral]
    · split
      · exact admits_decimal _ _
      · simp [Admits, Kind.IsPlain, Kind.ofLiteral]
    · exact admits_decimal _ _
  · exact admits_decimal _ _

lemma spelling_of_double? {d : Char} {p : Punct} (h : Punct.double? c d = some p) : p.spelling.toList = [c, d] := by
  unfold Punct.double? at h
  split at h <;> cases h <;> rfl

lemma spelling_of_single? {p : Punct} (h : Punct.single? c = some p) : p.spelling.toList = [c] := by
  unfold Punct.single? at h
  split at h <;> cases h <;> rfl

lemma admits_afterOperator (c : Char) (cs : List Char) :
    (afterOperator c cs).1.Admits (c :: cs.take (afterOperator c cs).2) := by
  unfold afterOperator
  split
  · next p hp =>
    obtain ⟨d,hd,hp⟩ := Option.bind_eq_some_iff.1 hp
    obtain ⟨ds,rfl⟩ := List.head?_eq_some_iff.1 hd
    exact spelling_of_double? hp
  · split
    · next p hp => exact spelling_of_single? hp
    · trivial

lemma admits_ahead (c : Char) (cs : List Char) : (ahead c cs).1.Admits (c :: cs.take (ahead c cs).2) := by
  unfold ahead
  split
  · next hc =>
    exact .inl (.inl (Language.append_mem_mul (singleton_mem_oneOf hc) (take_runLength_mem _ cs)))
  split
  · next hc =>
    obtain rfl := beq_iff_eq.1 hc
    exact admits_afterSlash cs
  split
  · next hc =>
    obtain rfl := beq_iff_eq.1 hc
    exact admits_afterDoubleQuote cs
  split
  · next hc =>
    obtain rfl := beq_iff_eq.1 hc
    exact admits_afterSingleQuote cs
  split
  · exact admits_afterDigit c cs
  split
  · trivial
  · exact admits_afterOperator c cs

end PieceClass

def placeOf : Scanned → Span
  | .ok t => t.span
  | .error e => e.span

/-- What was scanned is a token with this text, or an error whose message quotes it. -/
def Quotes : Scanned → String → Prop
  | .ok t, text => t.kind ≠ .eof ∧ t.kind.display = text
  | .error e, text => e.isLexical = true ∧ e.message = "unexpected character '" ++ text ++ "'"

namespace Piece

lemma forall_mem_tileFrom {P : Piece → Prop}
    (h : ∀ c cs, P ⟨(PieceClass.ahead c cs).1,c :: cs.take (PieceClass.ahead c cs).2⟩) (cs : List Char) (skip : Nat) :
    ∀ p ∈ tileFrom skip cs, P p := by
  induction cs generalizing skip with
  | nil => cases skip <;> exact forall_mem_nil P
  | cons c cs ih =>
    cases skip with
    | zero => exact forall_mem_cons.2 ⟨h c cs,ih _⟩
    | succ skip => exact ih skip

/-- A piece is a gap, or stands for something that quotes it. -/
structure IsRead (p : Piece) : Prop where
  nonempty : p.chars ≠ []
  gap : ∀ start, p.scanned? start = none → p.chars ∈ blankRun + lineComment + blockComment
  quoted : ∀ start s, p.scanned? start = some s →
    placeOf s = ⟨start,start + byteLength p.chars⟩ ∧ Quotes s (String.ofList p.chars)
  plain : ∀ start t, p.scanned? start = some (.ok t) → t.kind.IsPlain

lemma isPlain_of_admits (h : p.cls.Admits p.chars) {start : Nat} {t : Token}
    (ht : p.scanned? start = some (.ok t)) : t.kind.IsPlain := by
  obtain ⟨cls,chars⟩ := p
  cases cls with
  | gap | fault => cases ht
  | word =>
    cases ht
    exact Kind.isPlain_ofWord _
  | text =>
    cases ht
    exact h
  | punct =>
    cases ht
    trivial

lemma isRead_of_admits (hne : p.chars ≠ []) (h : p.cls.Admits p.chars) : p.IsRead := by
  refine ⟨hne,fun start hnone => ?_,fun start s hs => ?_,fun _ _ => isPlain_of_admits h⟩
  · obtain ⟨cls,chars⟩ := p
    cases cls with
    | gap => exact h
    | _ => cases hnone
  · cases s with
    | error e =>
      rw [eq_of_scanned?_error hs]
      exact ⟨rfl,rfl,rfl⟩
    | ok t =>
      -- No piece is the end of the input.
      have hplain := isPlain_of_admits h hs
      have heof : t.kind ≠ .eof := by
        intro heof
        rw [heof] at hplain
        exact hplain
      obtain ⟨cls,chars⟩ := p
      cases cls with
      | gap | fault => cases hs
      | word =>
        cases hs
        exact ⟨rfl,heof,Kind.display_ofWord _⟩
      | text =>
        cases hs
        exact ⟨rfl,heof,rfl⟩
      | punct p =>
        cases hs
        exact ⟨rfl,heof,String.toList_injective (h.trans String.toList_ofList.symm)⟩

lemma isRead_of_mem_tile {cs : List Char} (h : p ∈ tile cs) : p.IsRead :=
  forall_mem_tileFrom (fun c cs => isRead_of_admits (cons_ne_nil c _) (PieceClass.admits_ahead c cs)) cs 0 p h

end Piece

/-! ### A whole text -/

/-- From byte `start` on a text is made of what was scanned, with gaps between. -/
inductive Tiles : Nat → List Char → List Scanned → Prop where
  | gap {start : Nat} {gap : List Char} (hgap : gap ∈ gapText) : Tiles start gap []
  | item {start : Nat} {gap text cs : List Char} {s : Scanned} {ss : List Scanned} (hgap : gap ∈ gapText)
    (htext : text ≠ []) (hquotes : Quotes s (String.ofList text))
    (hplace : placeOf s = ⟨start + byteLength gap,start + byteLength (gap ++ text)⟩)
    (htiles : Tiles (start + byteLength (gap ++ text)) cs ss) : Tiles start (gap ++ text ++ cs) (s :: ss)

namespace Tiles

variable {start : Nat} {cs : List Char} {ss : List Scanned}

/-- More white space or another comment in front belongs to the first gap. -/
theorem cons_gap {unit : List Char} (hunit : unit ∈ blankRun + lineComment + blockComment)
    (h : Tiles (start + byteLength unit) cs ss) : Tiles start (unit ++ cs) ss := by
  cases h with
  | gap hgap => exact .gap (append_mem_kstar hunit hgap)
  | @item _ gap text cs s ss hgap htext hquotes hplace htiles =>
    rw [← append_assoc, ← append_assoc]
    refine .item (append_mem_kstar hunit hgap) htext hquotes ?_ ?_
    · rw [hplace]
      simp [Nat.add_assoc]
    · simpa [Nat.add_assoc] using htiles

lemma of_pieces {ps : List Piece} (h : ∀ p ∈ ps, p.IsRead) (start : Nat) :
    Tiles start (ps.map Piece.chars).flatten (Piece.scanFrom start ps) := by
  induction ps generalizing start with
  | nil => exact .gap (nil_mem_kstar _)
  | cons p ps ih =>
    obtain ⟨hp,hps⟩ := forall_mem_cons.1 h
    have hrest := ih hps (start + byteLength p.chars)
    rw [map_cons, flatten_cons, Piece.scanFrom]
    cases hs : p.scanned? start with
    | none => exact .cons_gap (hp.gap start hs) hrest
    | some s =>
      obtain ⟨hplace,hquotes⟩ := hp.quoted start s hs
      exact .item (nil_mem_kstar _) hp.nonempty hquotes hplace hrest

section

variable (h : Tiles start cs ss)
include h

lemma length_le : ss.length ≤ byteLength cs := by
  induction h with
  | gap => exact Nat.zero_le _
  | @item start gap text cs s ss hgap htext hquotes hplace htiles ih =>
    have := byteLength_pos htext
    rw [length_cons, byteLength_append, byteLength_append]
    omega

lemma exists_of_mem (hs : s ∈ ss) :
    ∃ before text after, cs = before ++ text ++ after ∧ text ≠ [] ∧ Quotes s (String.ofList text) ∧
      placeOf s = ⟨start + byteLength before,start + byteLength (before ++ text)⟩ := by
  induction h with
  | gap => cases hs
  | @item start gap text cs s' ss hgap htext hquotes hplace htiles ih =>
    obtain rfl | hs := mem_cons.1 hs
    · exact ⟨gap,text,cs,rfl,htext,hquotes,hplace⟩
    · obtain ⟨before,text',after,rfl,htext',hquotes',hplace'⟩ := ih hs
      refine ⟨gap ++ text ++ before,text',after,by simp,htext',hquotes',?_⟩
      rw [hplace']
      simp [Nat.add_assoc]

lemma start_lt_stop (hs : s ∈ ss) : (placeOf s).start < (placeOf s).stop := by
  obtain ⟨before,text,after,-,htext,-,hplace⟩ := h.exists_of_mem hs
  rw [hplace, byteLength_append, ← Nat.add_assoc]
  exact Nat.lt_add_of_pos_right (byteLength_pos htext)

lemma pairwise : ss.Pairwise fun s s' => (placeOf s).stop ≤ (placeOf s').start := by
  induction h with
  | gap => exact .nil
  | @item start gap text cs s ss hgap htext hquotes hplace htiles ih =>
    refine .cons (fun s' hs' => ?_) ih
    obtain ⟨before,_,_,_,_,_,hplace'⟩ := htiles.exists_of_mem hs'
    rw [hplace, hplace']
    exact Nat.le_add_right _ _

end

/-- Wherever what was scanned is divided, a gap fills the room up to what comes next. -/
theorem exists_gap {before after : List Scanned} (h : Tiles start cs (before ++ after)) :
    ∃ front gap back, cs = front ++ gap ++ back ∧ gap ∈ gapText ∧
      before.getLast?.elim start (fun s => (placeOf s).stop) = start + byteLength front ∧
      after.head?.elim (start + byteLength cs) (fun s => (placeOf s).start) = start + byteLength (front ++ gap) := by
  induction before generalizing start cs with
  | nil =>
    -- The room before the first item is the gap of that item, or all there is.
    generalize hss : [] ++ after = ss at h
    cases h with
    | gap hgap =>
      obtain rfl : after = [] := hss
      exact ⟨[],cs,[],by simp,hgap,rfl,rfl⟩
    | @item _ gap text cs s ss hgap htext hquotes hplace htiles =>
      obtain rfl : after = s :: ss := hss
      refine ⟨[],gap,text ++ cs,by simp,hgap,rfl,?_⟩
      simp [hplace]
  | cons s before ih =>
    cases h with
    | @item _ gap text cs _ _ hgap htext hquotes hplace htiles =>
      obtain ⟨front,gap',back,rfl,hgap',hfront,hback⟩ := ih htiles
      refine ⟨gap ++ text ++ front,gap',back,by simp,hgap',?_,?_⟩
      · rw [getLast?_cons, Option.elim_some]
        -- Where nothing else comes before the division, `s` is the item that ends there.
        have hstop : (placeOf (before.getLast?.getD s)).stop =
            before.getLast?.elim (start + byteLength (gap ++ text)) fun s => (placeOf s).stop := by
          cases before.getLast? with
          | none => simp [hplace]
          | some => rfl
        rw [hstop, hfront]
        simp [Nat.add_assoc]
      · have hsize : start + byteLength (gap ++ text ++ (front ++ gap' ++ back)) =
            start + byteLength (gap ++ text) + byteLength (front ++ gap' ++ back) := by
          rw [byteLength_append, Nat.add_assoc]
        rw [hsize, hback]
        simp [Nat.add_assoc]

end Tiles

lemma tiles_scan (source : String) : Tiles 0 source.toList (scan source) := by
  have h := Tiles.of_pieces (fun p (hp : p ∈ Piece.tile source.toList) => Piece.isRead_of_mem_tile hp) 0
  rwa [Piece.tile_flatten] at h

/-! ### Slices -/

/-- The part of a source text that a span covers. -/
def Span.slice (span : Span) (source : String) : String :=
  String.Pos.Raw.extract source ⟨span.start⟩ ⟨span.stop⟩

lemma byteLength_eq_utf8Len (cs : List Char) : byteLength cs = String.utf8Len cs := by
  induction cs with
  | nil => rfl
  | cons c cs ih => rw [byteLength_cons, ih, String.utf8Len_cons, Nat.add_comm]

lemma byteLength_toList (source : String) : byteLength source.toList = source.utf8ByteSize := by
  rw [byteLength_eq_utf8Len, String.utf8Len_toList]

lemma slice_append {text : List Char} (h : source.toList = before ++ text ++ after) :
    Span.slice ⟨byteLength before,byteLength (before ++ text)⟩ source = String.ofList text := by
  rw [← String.ofList_toList (s := source), h, byteLength_append, byteLength_eq_utf8Len, byteLength_eq_utf8Len]
  exact String.extract_of_valid before text after

lemma isValid_append (h : source.toList = before ++ after) : String.Pos.Raw.IsValid source ⟨byteLength before⟩ := by
  refine String.Pos.Raw.isValid_iff_exists_append.2 ⟨.ofList before,.ofList after,?_,?_⟩
  · rw [← String.ofList_append, ← h, String.ofList_toList]
  · rw [← String.toList_ofList (l := before), byteLength_toList, String.toList_ofList]
    rfl

lemma quotes_slice (hs : s ∈ scan source) : Quotes s ((placeOf s).slice source) ∧
    String.Pos.Raw.IsValid source ⟨(placeOf s).start⟩ ∧ String.Pos.Raw.IsValid source ⟨(placeOf s).stop⟩ := by
  obtain ⟨before,text,after,hsource,-,hquotes,hplace⟩ := (tiles_scan source).exists_of_mem hs
  rw [Nat.zero_add, Nat.zero_add] at hplace
  rw [hplace]
  refine ⟨?_,?_,?_⟩
  · rw [slice_append hsource]
    exact hquotes
  · rw [append_assoc] at hsource
    exact isValid_append hsource
  · exact isValid_append hsource

/-- Reading on in a source text after errors gives tokens and errors that cover it from left to right, up to gaps of
white space and comments, and then its end, after at most one step for each byte. -/
theorem source_tiled (source : String) : (∃ n ≤ source.utf8ByteSize,
        (Lookahead.run (List.replicate (n + 1) .next) (.ofSource source)).1.map Lookahead.Exchange.answer =
          (scan source ++ [Except.ok (endOfInput source)]).map Lookahead.Answer.token) ∧
      (∀ s ∈ scan source, (placeOf s).start < (placeOf s).stop ∧ Quotes s ((placeOf s).slice source) ∧
        String.Pos.Raw.IsValid source ⟨(placeOf s).start⟩ ∧ String.Pos.Raw.IsValid source ⟨(placeOf s).stop⟩) ∧
      (scan source).Pairwise (fun s s' => (placeOf s).stop ≤ (placeOf s').start) ∧
      ∀ before after, scan source = before ++ after → (Span.slice ⟨before.getLast?.elim 0 fun s => (placeOf s).stop,
            after.head?.elim source.utf8ByteSize fun s => (placeOf s).start⟩ source).toList ∈ gapText := by
  have htiles := tiles_scan source
  refine ⟨⟨(scan source).length,?_,?_⟩,fun s hs => ⟨htiles.start_lt_stop hs,quotes_slice hs⟩,htiles.pairwise,
    fun before after hscan => ?_⟩
  · rw [← byteLength_toList]
    exact htiles.length_le
  · exact Lookahead.answers_next (scan source) (endOfInput source) 1
  · rw [hscan] at htiles
    obtain ⟨front,gap,back,hsource,hgap,hfront,hback⟩ := htiles.exists_gap
    rw [Nat.zero_add] at hfront hback
    rw [byteLength_toList, Nat.zero_add] at hback
    -- The gap is told in lists of characters, the slice in bytes.
    rw [hfront, hback, slice_append hsource, String.toList_ofList]
    exact hgap

end Opal
