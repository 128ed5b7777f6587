import Opal.Proofs.Layouts
import Opal.Proofs.LiteralValues

/-!
# Tokens are read again

The text of a token tells the token, whatever stood after it. So the texts of the tokens of a source, with spaces between
them, are scanned as the same tokens.
-/

namespace Opal

open List Computability

variable {c : Char} {cs : List Char} {source : String}

lemma stringBody_of_mem {text : List Char} (h : text ∈ (quotedUnit '"')∗) (rest : List Char) :
    stringBody (text ++ '"' :: rest) = text.length := by
  obtain ⟨units,rfl,hunits⟩ := Language.mem_kstar.1 h
  clear h
  induction units with
  | nil => cases rest <;> rfl
  | cons unit units ih =>
    obtain ⟨hunit,hunits⟩ := forall_mem_cons.1 hunits
    rw [flatten_cons, append_assoc, length_append, ← ih hunits]
    obtain ⟨d,ds,hd⟩ : ∃ d ds, units.flatten ++ '"' :: rest = d :: ds := by
      cases units.flatten <;> simp
    obtain ⟨c,hc,rfl⟩ | ⟨_,rfl,_,⟨c,hc,rfl⟩,rfl⟩ := hunit
    · simp_all [stringBody, Nat.add_comm]
    · simp_all [stringBody, Nat.add_comm]

lemma afterSingleQuote_of_mem {unit : List Char} (h : unit ∈ quotedUnit '\'') (rest : List Char) :
    PieceClass.afterSingleQuote (unit ++ '\'' :: rest) = (.text .char, unit.length + 1) := by
  obtain ⟨c,hc,rfl⟩ | ⟨_,rfl,_,⟨c,hc,rfl⟩,rfl⟩ := h
  · simp_all [PieceClass.afterSingleQuote]
  · simp_all [PieceClass.afterSingleQuote]

namespace Kind

lemma isLexeme_string {text : String} (h : (Kind.text .string text).IsPlain) : (Kind.text .string text).IsLexeme := by
  obtain ⟨body,hbody,htext⟩ := h
  refine ⟨.text .string,'"',body ++ ['"'],htext,fun rest _ => ?_,fun start => ?_⟩
  · have hlength := stringBody_of_mem hbody rest
    simp [PieceClass.ahead, isBlank, PieceClass.afterDoubleQuote, hlength]
  · rw [Piece.scanned?, ← cons_append, ← htext, String.ofList_toList]

lemma isLexeme_char {text : String} (h : (Kind.text .char text).IsPlain) : (Kind.text .char text).IsLexeme := by
  obtain ⟨body,hbody,htext⟩ := h
  refine ⟨.text .char,'\'',body ++ ['\''],htext,fun rest _ => ?_,fun start => ?_⟩
  · have hahead := afterSingleQuote_of_mem hbody rest
    simpa [PieceClass.ahead, isBlank] using hahead
  · rw [Piece.scanned?, ← cons_append, ← htext, String.ofList_toList]

end Kind

namespace PieceClass

lemma isIdentStart_of_ahead (h : (ahead c cs).1 = .word ∨ (ahead c cs).1 = .text .identifier) : isIdentStart c = true := by
  unfold ahead at h
  split_ifs at h with _ _ _ _ _ hc
  · simp at h
  · unfold afterSlash at h
    grind
  · unfold afterDoubleQuote at h
    grind
  · unfold afterSingleQuote at h
    grind
  · unfold afterDigit at h
    grind
  · exact hc
  · unfold afterOperator at h
    grind

lemma isWord_ahead (h : (ahead c cs).1 = .word ∨ (ahead c cs).1 = .text .identifier) :
    isWord (String.ofList (c :: cs.take (ahead c cs).2)) = true := by
  have hc := isIdentStart_of_ahead h
  simp [isWord, Kind.ahead_of_isIdentStart hc, hc, all_take_runLength]

end PieceClass

/-- The kind of a token is told by its own text. -/
theorem isLexeme_of_mem_scan {t : Token} (ht : .ok t ∈ scan source) : t.kind.IsLexeme := by
  obtain ⟨p,hp,start,hs⟩ := Piece.exists_of_mem_scanFrom ht
  have hplain := (Piece.isRead_of_mem_tile hp).plain start t hs
  have hword : p.cls = .word ∨ p.cls = .text .identifier → isWord (String.ofList p.chars) = true :=
    Piece.forall_mem_tileFrom (P := fun p => p.cls = .word ∨ p.cls = .text .identifier → isWord (String.ofList p.chars) = true)
      (fun _ _ => PieceClass.isWord_ahead) _ 0 p hp
  obtain ⟨cls,chars⟩ := p
  cases cls with
  | gap | fault => cases hs
  | word =>
    cases hs
    exact Kind.isLexeme_ofWord (hword (.inl rfl))
  | punct p =>
    cases hs
    exact Kind.isLexeme_punct p
  | text c =>
    cases hs
    cases c with
    | hex | binary | decimal =>
      obtain ⟨hliteral,hkind⟩ := isLiteral_of_mem_scan ht rfl rfl
      exact hkind ▸ Kind.isLexeme_ofLiteral hliteral
    | char => exact Kind.isLexeme_char hplain
    | string => exact Kind.isLexeme_string hplain
    | identifier =>
      have hname : Kind.ofWord _ = _ := hplain
      exact hname ▸ Kind.isLexeme_ofWord (hword (.inr rfl))

lemma tokenize_spaced (ks : List Kind) (h : ∀ k ∈ ks, k.IsLexeme) : ∃ ts,
    tokenize (" ".intercalate (ks.map Kind.display)) = .ok (ts ++ [endOfInput (" ".intercalate (ks.map Kind.display))]) ∧
      ts.map Token.kind = ks := by
  obtain ⟨hkinds,hfaults⟩ := Cursor.ofSource_spaced h
  exact ⟨_,Cursor.tokenize_ofSource (Cursor.ending_eq_ok_iff.2 ⟨hfaults,rfl⟩),hkinds⟩

/-- The texts of the tokens of a source with spaces between them are scanned as the same tokens, and each of the texts by
itself as one token. -/
theorem tokens_rescanned {ts : List Token} (h : tokenize source = .ok ts) : ∃ us, ts = us ++ [endOfInput source] ∧
      (∃ us', tokenize (" ".intercalate (us.map (·.kind.display))) =
          .ok (us' ++ [endOfInput (" ".intercalate (us.map (·.kind.display)))]) ∧
        us'.map Token.kind = us.map Token.kind) ∧
      ∀ t ∈ us, ∃ t', tokenize t.kind.display = .ok [t', endOfInput t.kind.display] ∧ t'.kind = t.kind := by
  obtain ⟨last,hlast,rfl⟩ := Cursor.tokens_append_of_tokenize h
  have hlexeme (t : Token) (ht : t ∈ (Cursor.ofSource source).tokens) : t.kind.IsLexeme :=
    isLexeme_of_mem_scan ((Cursor.tokens_sublist_scan source).subset (mem_map_of_mem ht))
  refine ⟨_,by rw [Cursor.eq_of_ending_ok hlast],?_,fun t ht => ?_⟩
  · have hspaced := tokenize_spaced ((Cursor.ofSource source).tokens.map Token.kind) (by simpa using hlexeme)
    rwa [map_map] at hspaced
  · obtain ⟨us,hus,hkinds⟩ := tokenize_spaced [t.kind] (by simpa using hlexeme t ht)
    obtain ⟨u,rfl,hu⟩ := map_eq_singleton_iff.1 hkinds
    exact ⟨u,hus,hu⟩

theorem tokens_rescanned_adjacent : ∃ us, tokenize "x===0xg'a'" = .ok (us ++ [endOfInput "x===0xg'a'"]) ∧
    ∃ us', tokenize (" ".intercalate (us.map (·.kind.display))) =
        .ok (us' ++ [endOfInput (" ".intercalate (us.map (·.kind.display)))]) ∧
      us'.map Token.kind = us.map Token.kind := by
  have hread : (tokenize "x===0xg'a'").isOk = true := by decide +kernel
  cases hts : tokenize "x===0xg'a'" with
  | ok ts =>
    obtain ⟨us,rfl,hspaced,-⟩ := tokens_rescanned hts
    exact ⟨us,rfl,hspaced⟩
  | error e => simp [hts, Except.isOk, Except.toBool] at hread

end Opal
