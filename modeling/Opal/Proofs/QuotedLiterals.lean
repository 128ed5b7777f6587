import Opal.Proofs.FirstErrors
import Opal.Proofs.PrintedTrees

/-!
# Characters and strings between quotes

Any character and any string can be written as a literal and is read back from it. What is scanned as such a literal has a quote of
one byte on each side, and in between only an escape without a meaning can be wrong.
-/

namespace Opal

open Computability

/-- The text is a single token of the class, and it is parsed as an expression of the form. -/
structure ReadsAs (text : String) (cls : TextClass) (form : ExprForm) : Prop where
  scanned : scan text = [.ok ⟨.text cls text,⟨0,byteLength text.toList⟩⟩]
  parsed : ∃ e c, (Rules.within 1).expr 0 (Cursor.ofSource text) = .ok (e, c) ∧ c.tokens = [] ∧ e.form = form

lemma Kind.IsLexeme.scan_display {k : Kind} (h : k.IsLexeme) : scan k.display = [.ok ⟨k,⟨0,byteLength k.display.toList⟩⟩] := by
  obtain ⟨cls,c,cs,hdisplay,hahead,hscanned⟩ := h
  have htile := Piece.tile_append (hahead [] (.inl rfl))
  rw [List.append_nil] at htile
  rw [scan, hdisplay, htile, Piece.scanFrom, hscanned, Nat.zero_add]
  rfl

/-- An expression of one token is parsed from the text of the token. -/
theorem readsAs_of_lexeme {cls : TextClass} {text : String} {form : ExprForm} (h : (Kind.text cls text).IsLexeme)
    (hprintable : form.Printable) (hspelling : form.spelling = [.text cls text])
    (hoperand : (⟨0,default,form⟩ : Expr).isOperand) (hbare : ∀ f : ExprForm, f.bare = form.bare → f = form) :
    ReadsAs text cls form := by
  let e : Expr := ⟨0,default,form⟩
  have hscan := h.scan_display
  refine ⟨hscan,?_⟩
  have hcursor : (Cursor.ofSource text).Holds ([.text cls text] ++ []) := by
    rw [Cursor.ofSource, show scan text = _ from hscan]
    exact ⟨rfl,rfl,rfl⟩
  have hread := (Rules.complete_within 1).expr 0 e [] (by simpa [e, Expr.Printable] using hprintable)
    (by simp [e, Expr.spelling, hspelling]) (Expr.bindsAtLeast_of_isOperand hoperand 0)
    ⟨rfl,rfl,rfl,fun op hop => by cases hop⟩
  have hspelled : e.spelling = [.text cls text] := by rw [Expr.spelling, hspelling]
  rw [hspelled] at hread
  obtain ⟨e',c,ks,hrun,hc,he',rfl⟩ := hread _ hcursor
  refine ⟨e',c,hrun,List.map_eq_nil_iff.1 hc.kinds,hbare _ ?_⟩
  obtain ⟨id,span,form'⟩ := e'
  simpa [e, Expr.bare] using he'

lemma readsAs_string (v : String) : ReadsAs (Escape.literal '"' v.toList) .string (.string v) :=
  readsAs_of_lexeme (Kind.isLexeme_ofString v) (by simp [ExprForm.Printable]) (by rw [ExprForm.spelling, Kind.ofString]) rfl
    fun f hf => by cases f <;> simp_all [ExprForm.bare]

lemma readsAs_char (v : Char) : ReadsAs (Escape.literal '\'' [v]) .char (.char v) :=
  readsAs_of_lexeme (Kind.isLexeme_ofChar v) (by simp [ExprForm.Printable]) (by rw [ExprForm.spelling, Kind.ofChar]) rfl
    fun f hf => by cases f <;> simp_all [ExprForm.bare]

/-- A text between quotes without the first and the last byte is what stands between the quotes. -/
theorem slice_of_mem_quotedText {quote : Char} (hquote : quote.utf8Size = 1) {body : Language Char} {literal : String}
    (h : literal.toList ∈ quotedText quote body) : ∃ text ∈ body, literal.toList = quote :: text ++ [quote] ∧
      Escape.unquoted literal = text ∧ Span.slice ⟨1,byteLength literal.toList - 1⟩ literal = String.ofList text := by
  obtain ⟨text,htext,hliteral⟩ := h
  refine ⟨text,htext,hliteral,by simp [Escape.unquoted, hliteral],?_⟩
  have hsplit : literal.toList = [quote] ++ text ++ [quote] := hliteral
  have hslice := slice_append hsplit
  rw [hliteral]
  simpa [hquote, ← Nat.add_assoc] using hslice

/-- Characters and strings are read back from their literals. A literal of a source text has a quote of one byte on each side,
and fails to be decoded only by an escape without a meaning. -/
theorem quoted_literals_decode : (∀ v : String, ReadsAs (Escape.literal '"' v.toList) .string (.string v)) ∧
    (∀ v : Char, ReadsAs (Escape.literal '\'' [v]) .char (.char v)) ∧
    ∀ source : String, (∀ t literal, .ok t ∈ scan source → t.kind = .text .string literal →
        (∃ text ∈ (quotedUnit '"')∗, literal.toList = '"' :: text ++ ['"'] ∧ Escape.unquoted literal = text ∧
          Span.slice ⟨1,byteLength literal.toList - 1⟩ literal = String.ofList text) ∧
        ∀ cause, Escape.string literal = .error cause → ∃ c, cause = .unknownEscape c) ∧
      (∀ t literal, .ok t ∈ scan source → t.kind = .text .char literal →
        (∃ text ∈ quotedUnit '\'', literal.toList = '\'' :: text ++ ['\''] ∧ Escape.unquoted literal = text ∧
          Span.slice ⟨1,byteLength literal.toList - 1⟩ literal = String.ofList text) ∧
        ∀ cause, Escape.character literal = .error cause → ∃ c, cause = .unknownEscape c) ∧
      ∀ e, Module.parse source = .error e → e.cause ≠ .unterminatedEscape ∧ e.cause ≠ .invalidCharacter := by
  have plain {source : String} {t : Token} (ht : .ok t ∈ scan source) : t.kind.IsPlain := by
    obtain ⟨p,hp,start,hscanned⟩ := Piece.exists_of_mem_scanFrom ht
    exact (Piece.isRead_of_mem_tile hp).plain start t hscanned
  refine ⟨readsAs_string,readsAs_char,fun source => ⟨fun t literal ht hkind => ?_,fun t literal ht hkind => ?_, fun e he => ?_⟩⟩
  · have hplain := hkind ▸ plain ht
    exact ⟨slice_of_mem_quotedText (by decide) hplain,fun cause => Escape.unknown_of_string hplain⟩
  · have hplain := hkind ▸ plain ht
    exact ⟨slice_of_mem_quotedText (by decide) hplain,fun cause => Escape.unknown_of_character hplain⟩
  · obtain hending | ⟨hcause,-⟩ := Module.blames_of_parse he
    · have hlexical := (Cursor.of_ending_error hending).1
      constructor <;> intro hcause <;> simp [SyntaxError.isLexical, hcause] at hlexical
    · constructor <;> intro hne <;> simp [SyntaxCause.isGrammatical, hne] at hcause

end Opal
