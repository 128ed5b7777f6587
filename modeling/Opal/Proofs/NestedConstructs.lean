import Opal.Proofs.LikeRuns
import Opal.Proofs.NodePositions

/-!
# Places nest

The place of a construct reaches from the start of a token to the end of a token, and what is inside stands inside of it, one
after the other. Errors are reported at the places of constructs.
-/

namespace Opal

open List

inductive Module.Holds (m : Module) : Construct → Prop where
  | item {d : Decl} (h : d ∈ m.decls) : m.Holds (.decl d)
  | child {x y : Construct} (hx : m.Holds x) (hy : y ∈ x.children) : m.Holds y

/-- The span covers tokens of the sequence, from the first byte of the `i`-th one to the last byte of the `j`-th one. -/
def Span.Reaches (span : Span) (ts : List Token) : Prop :=
  ∃ (i j : Nat) (t u : Token), i ≤ j ∧ ts[i]? = some t ∧ ts[j]? = some u ∧ span = ⟨t.span.start,u.span.stop⟩

/-- The span is a part of the source text, with at least one character. -/
structure Span.Proper (span : Span) (source : String) : Prop where
  nonempty : span.start < span.stop
  bounded : span.stop ≤ source.utf8ByteSize
  start : String.Pos.Raw.IsValid source ⟨span.start⟩
  stop : String.Pos.Raw.IsValid source ⟨span.stop⟩

/-- Places inside of a place, one after the other. -/
structure Span.Divides (span : Span) (parts : List Span) : Prop where
  within : ∀ a ∈ parts, a.Within span
  apart : parts.Pairwise fun a b => a.stop ≤ b.start

/-- A construct stands in the source where its place says. -/
structure Construct.StandsIn (x : Construct) (source : String) (ts : List Token) : Prop where
  reaches : x.span.Reaches ts
  proper : x.span.Proper source
  divides : x.span.Divides (x.children.map Construct.span)
  /-- A declaration among statements is the whole statement. -/
  item : ∀ s d, x = .stmt s → s.form = .decl d → s.span = d.span
  text : ∀ text, x.text? = some text → x.span.slice source = text

section Tokens

variable {span : Span} {ts us : List Token}

lemma Span.Covers.reaches (h : span.Covers us) (hpart : us <:+: ts) : span.Reaches ts := by
  obtain ⟨t,u,ht,hu,hspan⟩ := h
  obtain ⟨before,after,rfl⟩ := hpart
  have hpos : 0 < us.length := length_pos_of_mem (mem_of_head? ht)
  refine ⟨before.length,before.length + (us.length - 1),t,u,Nat.le_add_right ..,?_,?_,hspan⟩
  · rw [append_assoc, getElem?_append_right le_rfl, Nat.sub_self, getElem?_append_left hpos,
      ← head?_eq_getElem?, ht]
  · rw [append_assoc, getElem?_append_right (Nat.le_add_right ..), Nat.add_sub_cancel_left,
      getElem?_append_left (by omega), ← getLast?_eq_getElem?, hu]

lemma Span.Covers.within (h : span.Covers ts) (horder : InOrder ts) {t u : Token} (ht : t ∈ ts) (hu : u ∈ ts) :
    Span.Within ⟨t.span.start,u.span.stop⟩ span := by
  obtain ⟨a,b,ha,hb,rfl⟩ := h
  obtain ⟨rest,rfl⟩ := head?_eq_some_iff.1 ha
  exact ⟨horder.head_start_le ht,horder.stop_le_last hu hb⟩

/-- What is lined up in a part of the tokens divides the span of this part. -/
theorem Lined.divides {xs : List Construct} (h : Lined ts xs) (hspan : span.Covers ts) (horder : InOrder ts) :
    span.Divides (xs.map Construct.span) where
  within a ha := by
    obtain ⟨x,hx,rfl⟩ := mem_map.1 ha
    obtain ⟨us,hus,hpart⟩ := h.exists_part hx
    obtain ⟨t,u,ht,hu,hx⟩ := Construct.covers_of_mem hus
    rw [hx]
    exact hspan.within horder (hpart.subset (mem_of_head? ht)) (hpart.subset (mem_of_getLast? hu))
  apart := pairwise_map.2 (h.apart horder)

end Tokens

lemma Kind.display_ofLiteral (text : String) : (Kind.ofLiteral text).display = text := by
  unfold Kind.ofLiteral
  split <;> rfl

lemma Construct.token_of_text? {x : Construct} {text : String} (h : x.text? = some text) {ts : List Token}
    (hts : ts ∈ x.readings) : ∃ t, ts = [t] ∧ t.kind.display = text := by
  unfold text? at h
  split at h
  case h_1 text' span =>
    obtain rfl : ts = [⟨.ofWord text',span⟩] := hts
    exact ⟨_,rfl,(Kind.display_ofWord _).trans (Option.some.inj h)⟩
  case h_2 text' _ | h_4 text' =>
    obtain ⟨span,rfl⟩ := hts.1
    exact ⟨_,rfl,(Kind.display_ofWord _).trans (Option.some.inj h)⟩
  case h_3 text' =>
    obtain ⟨span,rfl⟩ := hts.1
    exact ⟨_,rfl,(Kind.display_ofLiteral _).trans (Option.some.inj h)⟩
  case h_5 => cases h

/-! ## Where constructs stand -/

section Source

variable {source : String} {span : Span} {us : List Token}

lemma Cursor.quotes_slice {t : Token} (ht : t ∈ (Cursor.ofSource source).tokens) :
    t.kind.display = t.span.slice source ∧ String.Pos.Raw.IsValid source ⟨t.span.start⟩ ∧
      String.Pos.Raw.IsValid source ⟨t.span.stop⟩ := by
  obtain ⟨hquotes,hvalid⟩ := Opal.quotes_slice ((tokens_sublist_scan source).subset (mem_map_of_mem ht))
  exact ⟨hquotes.2,hvalid⟩

lemma Span.Covers.proper (h : span.Covers us) (hpart : us <:+: (Cursor.ofSource source).tokens) : span.Proper source := by
  have horder := (Cursor.sane_ofSource source).order.sublist hpart.sublist
  obtain ⟨t,u,ht,hu,rfl⟩ := h
  have hstop := (Cursor.quotes_slice (hpart.subset (mem_of_getLast? hu))).2.2
  refine ⟨?_,?_,(Cursor.quotes_slice (hpart.subset (mem_of_head? ht))).2.1,hstop⟩
  · exact (horder.nonempty t (mem_of_head? ht)).trans_le (horder.stop_le_last (mem_of_head? ht) hu)
  · exact hstop.le_rawEndPos

/-- A construct that was read from a part of the tokens stands there. -/
theorem Construct.standsIn {x : Construct} (hus : us ∈ x.readings) (hpart : us <:+: (Cursor.ofSource source).tokens) :
    x.StandsIn source (Cursor.ofSource source).tokens where
  reaches := (covers_of_mem hus).reaches hpart
  proper := (covers_of_mem hus).proper hpart
  divides := (x.lines us hus).divides (covers_of_mem hus) ((Cursor.sane_ofSource source).order.sublist hpart.sublist)
  item := by
    rintro ⟨_,form⟩ d rfl (rfl : form = .decl d)
    exact Span.Covers.unique hus.2 (Decl.covers_of_mem hus.1)
  text text htext := by
    obtain ⟨t,rfl,hkind⟩ := token_of_text? htext hus
    have ht := (Cursor.quotes_slice (hpart.subset (.head _))).1
    rw [Span.Covers.unique (covers_of_mem hus) t.covers, ← ht, hkind]

end Source

namespace Module

variable {source : String} {m : Module} {x : Construct}

lemma Holds.exists_part (h : Module.parse source = .ok m) (hx : m.Holds x) :
    ∃ us ∈ x.readings, us <:+: (Cursor.ofSource source).tokens := by
  induction hx with
  | item hd => exact (m.lined_of_parse h).exists_part (mem_map_of_mem hd)
  | child _ hy ih =>
    obtain ⟨us,hus,hpart⟩ := ih
    obtain ⟨vs,hvs,hpart'⟩ := (Construct.lines _ us hus).exists_part hy
    exact ⟨vs,hvs,hpart'.trans hpart⟩

/-- The span of a module covers all its tokens. An empty module stands at the end of the input. -/
theorem span_of_parse (h : Module.parse source = .ok m) :
    ((Cursor.ofSource source).tokens = [] ∧ m.span = ⟨source.utf8ByteSize,source.utf8ByteSize⟩) ∨
      m.span.Covers (Cursor.ofSource source).tokens := by
  obtain ⟨t,ht,hspan⟩ := (parsed_of_parse h).span
  have horder := (Cursor.sane_ofSource source).order
  cases htokens : (Cursor.ofSource source).tokens with
  | nil =>
    have hlast := ht.shows
    rw [Cursor.Shows, htokens] at hlast
    rw [htokens, Cursor.eq_of_ending_ok (hlast.resolve_left not_mem_nil)] at hspan
    refine .inl ⟨rfl,?_⟩
    rw [hspan, ← byteLength_toList]
    exact congrArg (Span.mk _) (Nat.zero_max _)
  | cons u us =>
    obtain ⟨w,hw⟩ : ∃ w, (u :: us).getLast? = some w := ⟨_,getLast?_eq_some_getLast (cons_ne_nil u us)⟩
    rw [htokens, hw, ← ht.starts u us htokens] at hspan
    rw [htokens] at horder
    refine .inr ⟨u,w,rfl,hw,?_⟩
    rw [hspan]
    exact congrArg (Span.mk _) (max_eq_left (horder.stop_le_last (.head _) hw))

/-! ## Where errors stand -/

lemma Holds.everywhere {P : Span → Prop} (h : ∀ x, m.Holds x → P x.span) (hx : m.Holds x) : x.Everywhere P := by
  induction x using Construct.induction with
  | h x ih => exact .mk (h x hx) fun y hy => ih y hy (.child hx hy)

/-- A run and itself, on a tree the places of which are those of the module. -/
def places (m : Module) : WholeLikeness where
  bare := False
  span a _ := ∃ x, m.Holds x ∧ a = x.span
  name a _ := ∃ x, m.Holds x ∧ a = x.span
  span_of_name := id
  types := True
  typeOf _ _ := True
  typeOf_congr _ _ := trivial
  kept := id
  both _ _ _ _ _ := trivial

/-- Errors are reported at the places of constructs. -/
theorem exists_of_mem_errors {e : SemanticError} (he : e ∈ m.check.errors) : ∃ x, m.Holds x ∧ e.span = x.span := by
  have hdecls : Forall₂ (Decl.Like m.places.toLikeness) m.decls m.decls := by
    refine forall₂_same.2 fun d hd => ?_
    have hplaces := Holds.everywhere (P := m.places.Moves fun a => a) (fun x hx => ⟨⟨x,hx,rfl⟩,x,hx,rfl⟩) (.item hd)
    simpa only [respan_id.decl] using d.like_respan hplaces
  obtain ⟨-,hrel,-⟩ := (Module.run_agree hdecls).ends (.initial _ trivial)
  exact (forall₂_same.1 hrel.errors e (Array.mem_toList_iff.2 he)).2

/-- Places nest in a module that was read from the tokens of a source text. -/
structure Nests (m : Module) (source : String) (ts : List Token) : Prop where
  constructs : ∀ x, m.Holds x → x.StandsIn source ts
  /-- An empty module stands at the end of the input. -/
  empty : m.decls = [] → m.span = ⟨source.utf8ByteSize,source.utf8ByteSize⟩
  whole : m.decls ≠ [] → m.span.Reaches ts ∧ m.span.Proper source ∧ m.span.Divides (m.decls.map Decl.span)
  errors : ∀ e ∈ m.check.errors, (∃ x, m.Holds x ∧ e.span = x.span) ∧ e.span.Proper source

/-- Places nest in a parsed module. Each construct reaches from the start of a token to the end of a token, and what is
inside of it stands inside of it, one after the other. Names and integer literals are spelled as they are stored. Errors
are reported at the places of constructs. -/
theorem constructs_nest (h : Module.parse source = .ok m) :
    ∃ ts, tokenize source = .ok (ts ++ [endOfInput source]) ∧ m.Nests source ts := by
  have hstands (x : Construct) (hx : m.Holds x) : x.StandsIn source (Cursor.ofSource source).tokens := by
    obtain ⟨us,hus,hpart⟩ := hx.exists_part h
    exact Construct.standsIn hus hpart
  have hlined := m.lined_of_parse h
  obtain ⟨t,ht⟩ := (parsed_of_parse h).ending
  refine ⟨_,Cursor.tokenize_ofSource ht,hstands,fun hnil => ?_,fun hne => ?_,fun e he => ?_⟩
  · have hmem := (parsed_of_parse h).readings
    rw [readings, hnil] at hmem
    obtain ⟨-,hspan⟩ | hspan := m.span_of_parse h
    · exact hspan
    · exact absurd hmem hspan.ne_nil
  · obtain ⟨hnil,-⟩ | hspan := m.span_of_parse h
    · obtain ⟨d,hd⟩ := exists_mem_of_ne_nil _ hne
      obtain ⟨us,hus,hpart⟩ := Holds.exists_part h (.item hd)
      exact absurd (infix_nil.1 (hnil ▸ hpart)) (Decl.covers_of_mem hus).ne_nil
    · have hdivides := hlined.divides hspan (Cursor.sane_ofSource source).order
      rw [map_map] at hdivides
      exact ⟨hspan.reaches infix_rfl,hspan.proper infix_rfl,hdivides⟩
  · obtain ⟨x,hx,hspan⟩ := exists_of_mem_errors he
    exact ⟨⟨x,hx,hspan⟩,hspan ▸ (hstands x hx).proper⟩

/-- A function with a comment in it, and two errors. -/
theorem constructs_nest_errors : ∃ m ts,
    Module.parse "def f(x: [u8, 2]) \x7b let y /* y */ = g(a: x); \x7d const N: u8 = 0x1_00;" = .ok m ∧ m.check.errors.size = 2 ∧
      tokenize "def f(x: [u8, 2]) \x7b let y /* y */ = g(a: x); \x7d const N: u8 = 0x1_00;" = .ok (ts ++
        [endOfInput "def f(x: [u8, 2]) \x7b let y /* y */ = g(a: x); \x7d const N: u8 = 0x1_00;"]) ∧
      m.Nests "def f(x: [u8, 2]) \x7b let y /* y */ = g(a: x); \x7d const N: u8 = 0x1_00;" ts := by
  obtain ⟨m,hm,herrors⟩ := Module.exists_of_test
    "def f(x: [u8, 2]) \x7b let y /* y */ = g(a: x); \x7d const N: u8 = 0x1_00;" (·.check.errors.size == 2)
    (by decide +kernel)
  obtain ⟨ts,hts,hnests⟩ := constructs_nest hm
  exact ⟨m,ts,hm,beq_iff_eq.1 herrors,hts,hnests⟩

end Module

end Opal
