import Opal.Proofs.Grouping
import Opal.Proofs.Readings
import Opal.Proofs.ScannedTokens

/-!
# What a parser does

What a rule returns is read from exactly the tokens it took, its nodes have the numbers that come next, and it is grouped by
precedence. A rule fails at a token it has looked at, or at a lexical error. One rule for each way to build a computation.
-/

namespace Opal

open List Cursor

variable {start : Span} {cause : SyntaxCause} {e : SyntaxError} {t u : Token}

/-- The reader after it took the tokens `ts`. -/
structure Cursor.Takes (c : Cursor) (ts : List Token) (c' : Cursor) : Prop where
  tokens : c.tokens = ts ++ c'.tokens
  ending : c'.ending = c.ending
  prevStop : c'.prevStop = ts.getLast?.elim c.prevStop fun t => t.span.stop

namespace Cursor.Takes

variable {c c' c'' : Cursor} {ts us : List Token}

lemma refl (c : Cursor) : c.Takes [] c :=
  ⟨rfl,rfl,rfl⟩

lemma trans (h : c.Takes ts c') (h' : c'.Takes us c'') : c.Takes (ts ++ us) c'' where
  tokens := by rw [h.tokens, h'.tokens, append_assoc]
  ending := h'.ending.trans h.ending
  prevStop := by
    rw [h'.prevStop, h.prevStop, getLast?_append]
    cases us.getLast? <;> rfl

lemma sane (h : c.Takes ts c') (hc : c.Sane) : c'.Sane where
  order := hc.order.sublist (h.tokens ▸ sublist_append_right _ _)
  plain t ht := hc.plain t (h.tokens ▸ mem_append_right _ ht)
  ending := h.ending ▸ hc.ending

lemma order (h : c.Takes ts c') (hc : c.Sane) : InOrder ts :=
  hc.order.sublist (h.tokens ▸ sublist_append_left _ _)

end Cursor.Takes

/-! ### Spans -/

lemma Span.Covers.ne_nil {span : Span} {ts : List Token} (h : span.Covers ts) : ts ≠ [] := by
  obtain ⟨t,u,hhead,-,-⟩ := h
  rintro rfl
  cases hhead

lemma Span.Covers.unique {a b : Span} {ts : List Token} (ha : a.Covers ts) (hb : b.Covers ts) : a = b := by
  obtain ⟨t,u,ht,hu,rfl⟩ := ha
  obtain ⟨t',u',ht',hu',rfl⟩ := hb
  obtain rfl : t = t' := Option.mem_unique ht ht'
  obtain rfl : u = u' := Option.mem_unique hu hu'
  rfl

lemma Token.covers (t : Token) : t.span.Covers [t] :=
  ⟨t,t,rfl,rfl,rfl⟩

lemma InOrder.stop_le_last {ts : List Token} (h : InOrder ts) (ht : t ∈ ts)
    (hu : ts.getLast? = some u) : t.span.stop ≤ u.span.stop := by
  obtain ⟨init,rfl⟩ := getLast?_eq_some_iff.1 hu
  obtain ht | ht := mem_append.1 ht
  · have hapart := (pairwise_append.1 h.apart).2.2 t ht u (by simp)
    have := h.nonempty u (by simp)
    omega
  · obtain rfl := mem_singleton.1 ht
    exact le_rfl

lemma InOrder.head_start_le {ts : List Token} (h : InOrder (t :: ts)) (hu : u ∈ t :: ts) : t.span.start ≤ u.span.start := by
  obtain rfl | hu := mem_cons.1 hu
  · exact le_rfl
  · have hapart := (pairwise_cons.1 h.apart).1 u hu
    have := h.nonempty t (by simp)
    omega

/-- A span that is drawn out to the last token taken covers all of them. -/
theorem Cursor.Takes.covers {c c' : Cursor} {span : Span} {ts us : List Token} (hspan : span.Covers ts)
    (h : c.Takes (ts ++ us) c') (hc : c.Sane) : Span.Covers ⟨span.start,max c'.prevStop span.stop⟩ (ts ++ us) := by
  obtain ⟨t,u,hhead,hlast,rfl⟩ := hspan
  have hne : ts ≠ [] := by
    rintro rfl
    cases hhead
  -- The last token taken is `w`, whether or not anything was taken after `ts`.
  obtain ⟨w,hw⟩ : ∃ w, (ts ++ us).getLast? = some w := by
    cases hw : (ts ++ us).getLast? with
    | none => simp [hne] at hw
    | some w => exact ⟨w,rfl⟩
  have hle : u.span.stop ≤ w.span.stop :=
    (h.order hc).stop_le_last (mem_append_left _ (mem_of_getLast? hlast)) hw
  have hprev : c'.prevStop = w.span.stop := by rw [h.prevStop, hw]; rfl
  refine ⟨t,w,?_,hw,?_⟩
  · rw [head?_append, hhead]
    rfl
  · rw [hprev, max_eq_left hle]

lemma Span.Covers.cover {a b : Span} {ts us : List Token} (ha : a.Covers ts) (ms : List Token) (hb : b.Covers us)
    (h : InOrder (ts ++ (ms ++ us))) : (a.cover b).Covers (ts ++ (ms ++ us)) := by
  obtain ⟨t,t',hthead,htlast,rfl⟩ := ha
  obtain ⟨u,u',huhead,hulast,rfl⟩ := hb
  have hlast : (ts ++ (ms ++ us)).getLast? = some u' := by simp [getLast?_append, hulast]
  have hhead : (ts ++ (ms ++ us)).head? = some t := by simp [head?_append, hthead]
  refine ⟨t,u',hhead,hlast,?_⟩
  have hstop := h.stop_le_last (mem_append_left _ (mem_of_getLast? htlast)) hlast
  have hstart : t.span.start ≤ u.span.start := by
    obtain ⟨rest,hrest⟩ := head?_eq_some_iff.1 hhead
    have hu : u ∈ ts ++ (ms ++ us) := by simp [mem_of_head? huhead]
    rw [hrest] at h hu
    exact h.head_start_le hu
  rw [Span.cover, min_eq_left hstart, max_eq_right hstop]

/-- The only member of its class, and not the end of the input. -/
structure Kind.IsFixed (kind : Kind) : Prop where
  ne_eof : Kind.eof.sameClass kind = false
  unique : ∀ k : Kind, k.sameClass kind = true → k = kind

lemma Kind.IsFixed.keyword (k : Keyword) : (Kind.keyword k).IsFixed where
  ne_eof := rfl
  unique k' h := by cases k' <;> simp_all [Kind.sameClass]

lemma Kind.IsFixed.punct (p : Punct) : (Kind.punct p).IsFixed where
  ne_eof := rfl
  unique k' h := by cases k' <;> simp_all [Kind.sameClass]

/-! ### What was read since the reader stood somewhere -/

/-- The reader stood at `c0`, has taken one of the sequences of `l` since, and has made the nodes `N`. -/
structure Cursor.Read (c0 : Cursor) (l : Language Token) (N : List Node) (c : Cursor) : Prop where
  sane : c0.Sane
  taken : ∃ ts ∈ l, c0.Takes ts c
  numbered : N.map Node.id = List.range' c0.nextId N.length
  nextId : c.nextId = c0.nextId + N.length
  groups : Groups N

namespace Cursor.Read

variable {c0 c c' : Cursor} {l l' : Language Token} {N N' : List Node}

lemma refl (hc : c.Sane) : c.Read 1 [] c :=
  ⟨hc,⟨[],Language.nil_mem_one,.refl c⟩,rfl,rfl,.nil⟩

section

variable (h : c0.Read l N c)
include h

lemma trans (h' : c.Read l' N' c') : c0.Read (l * l') (N ++ N') c' where
  sane := h.sane
  taken := by
    obtain ⟨ts,hts,htakes⟩ := h.taken
    obtain ⟨us,hus,htakes'⟩ := h'.taken
    exact ⟨ts ++ us,Language.append_mem_mul hts hus,htakes.trans htakes'⟩
  numbered := by
    rw [map_append, h.numbered, h'.numbered, h.nextId, range'_append_1, length_append]
  nextId := by rw [h'.nextId, h.nextId, length_append, Nat.add_assoc]
  groups := Groups.append_iff.2 ⟨h.groups,h'.groups⟩

lemma here : c.Sane := by
  obtain ⟨ts,-,htakes⟩ := h.taken
  exact htakes.sane h.sane

lemma length_le : c.tokens.length ≤ c0.tokens.length := by
  obtain ⟨ts,-,htakes⟩ := h.taken
  rw [htakes.tokens, length_append]
  omega

lemma length_lt (hl : [] ∉ l) : c.tokens.length < c0.tokens.length := by
  obtain ⟨ts,hts,htakes⟩ := h.taken
  have hpos := length_pos_iff.2 fun hnil => hl (hnil ▸ hts)
  rw [htakes.tokens, length_append]
  omega

lemma imp (hl : ∀ ts, c0.Sane → c0.Takes ts c → ts ∈ l → ts ∈ l') : c0.Read l' N c := by
  obtain ⟨ts,hts,htakes⟩ := h.taken
  exact { h with taken := ⟨ts,hl ts h.sane htakes hts,htakes⟩ }

lemma take {ts : List Token} (hc : c.tokens = t :: ts) :
    c0.Read (l * tokenAt t.kind t.span) N { c with tokens := ts, prevStop := t.span.stop } := by
  have htaken : c.Read (tokenAt t.kind t.span) [] { c with tokens := ts, prevStop := t.span.stop } :=
    ⟨h.here,⟨[t],rfl,hc,rfl,rfl⟩,rfl,rfl,.nil⟩
  simpa using h.trans htaken

lemma made {n : Node} (hid : n.id = c.nextId) (hn : Groups [n]) : c0.Read l (N ++ [n]) { c with nextId := c.nextId + 1 } := by
  have hmade : c.Read 1 [n] { c with nextId := c.nextId + 1 } :=
    ⟨h.here,⟨[],Language.nil_mem_one,rfl,rfl,rfl⟩,by simp [hid],rfl,hn⟩
  simpa using h.trans hmade

end

end Cursor.Read

/-- The next token stands at `span`, if there is one. -/
def Cursor.Starts (c : Cursor) (span : Span) : Prop :=
  ∀ t ts, c.tokens = t :: ts → t.span = span

/-- What was taken since `c0`, if it is in `l`, starts with tokens that `span` covers. -/
def Cursor.Opens (c0 : Cursor) (span : Span) (l : Language Token) : Prop :=
  ∀ ts ∈ l, ∀ c, c0.Takes ts c → ∃ us vs, ts = us ++ vs ∧ span.Covers us

section

variable {c0 : Cursor} {span : Span} {l m : Language Token}

lemma Cursor.Starts.opens (h : c0.Starts span) (hne : [] ∉ l) : c0.Opens span l := by
  intro ts hts c htakes
  cases ts with
  | nil => exact absurd hts hne
  | cons t ts => exact ⟨[t],ts,rfl,h t _ htakes.tokens ▸ t.covers⟩

lemma Cursor.opens_of_covers (h : ∀ ts ∈ l, span.Covers ts) : c0.Opens span (l * m) := by
  intro ts hts c _
  obtain ⟨us,hus,vs,-,rfl⟩ := Language.mem_mul.1 hts
  exact ⟨us,vs,rfl,h us hus⟩

lemma Cursor.Read.covering {c : Cursor} {N : List Node} (h : c0.Read l N c) (hopens : c0.Opens span l) :
    c0.Read (covering ⟨span.start,max c.prevStop span.stop⟩ l) N c := by
  refine h.imp fun ts hsane htakes hts => ?_
  obtain ⟨us,vs,rfl,hcovers⟩ := hopens ts hts c htakes
  exact ⟨hts,htakes.covers hcovers hsane⟩

end

/-! ### Languages without the empty sequence -/

@[simp] lemma nil_mem_mul {l m : Language Token} : [] ∈ l * m ↔ [] ∈ l ∧ [] ∈ m := by
  simp [Language.mem_mul]

@[simp] lemma nil_notMem_token (kind : Kind) : [] ∉ token kind := by
  rintro ⟨span,⟨⟩⟩

@[simp] lemma nil_notMem_tokenAt (kind : Kind) (span : Span) : [] ∉ tokenAt kind span :=
  fun h => nomatch h

@[simp] lemma nil_notMem_covering (span : Span) (l : Language Token) : [] ∉ covering span l :=
  fun h => h.2.ne_nil rfl

lemma tokenAt_le_token (kind : Kind) (span : Span) : tokenAt kind span ≤ token kind :=
  fun _ h => ⟨span,h⟩

/-! ### Errors -/

lemma eq_error_of_map {ε α β : Type} {f : α → β} {r : Except ε α} {e : ε} (h : r.map f = .error e) : r = .error e := by
  cases r with
  | error e' => cases h; rfl
  | ok a => cases h

/-- The grammar calls for something else, or an escape has no meaning. -/
def SyntaxCause.isGrammatical : SyntaxCause → Bool
  | expected _ _ | unknownEscape _ => true
  | unexpected _ | unterminatedEscape | invalidCharacter => false

lemma SyntaxError.isLexical_eq_false (h : e.cause.isGrammatical = true) : e.isLexical = false := by
  obtain ⟨cause,span⟩ := e
  cases cause with
  | expected | unknownEscape => rfl
  | unexpected | unterminatedEscape | invalidCharacter => cases h

namespace Cursor

/-- `t` is one of the tokens, or the end of the input. -/
def Shows (c : Cursor) (t : Token) : Prop :=
  t ∈ c.tokens ∨ c.ending = .ok t

/-- Reading on can end with `e`: it is the lexical error after the tokens, or stands at one of them. -/
def Blames (c : Cursor) (e : SyntaxError) : Prop :=
  c.ending = .error e ∨ e.cause.isGrammatical = true ∧ ∃ t, c.Shows t ∧ e.span = t.span

variable {c0 c : Cursor} {l : Language Token} {N : List Node}

lemma Read.ending (h : c0.Read l N c) : c.ending = c0.ending := by
  obtain ⟨ts,-,htakes⟩ := h.taken
  exact htakes.ending

lemma Read.shows (h : c0.Read l N c) (ht : c.Shows t) : c0.Shows t := by
  obtain ⟨ts,-,htakes⟩ := h.taken
  rw [Shows, htakes.tokens, ← htakes.ending, mem_append]
  exact ht.imp_left .inr

lemma Read.blames (h : c0.Read l N c) (he : c.Blames e) : c0.Blames e := by
  obtain hending | ⟨hsyntactic,t,ht,hspan⟩ := he
  · exact .inl (h.ending ▸ hending)
  · exact .inr ⟨hsyntactic,t,h.shows ht,hspan⟩

lemma Shows.blames (h : c.Shows t) (hcause : cause.isGrammatical = true) : c.Blames ⟨cause,t.span⟩ :=
  .inr ⟨hcause,t,h,rfl⟩

/-- `t` is the token ahead, be it the end of the input. -/
structure Next (c : Cursor) (t : Token) : Prop where
  shows : c.Shows t
  kind : t.kind = c.ahead
  starts : c.Starts t.span

/-- None of the tokens is the end of the input, so there are none left where it is ahead. -/
theorem Next.at_end (h : c.Next t) (hc : c.Sane) (heof : t.kind = .eof) : c.tokens = [] ∧ c.ending = .ok t := by
  have hplain : ∀ u ∈ c.tokens, u.kind ≠ .eof := fun u hu hu' => by
    have := hc.plain u hu
    rw [hu'] at this
    exact this
  cases htokens : c.tokens with
  | nil => exact ⟨rfl,h.shows.resolve_left (by simp [htokens])⟩
  | cons u us =>
    refine absurd ?_ (hplain u (by simp [htokens]))
    rw [← heof, h.kind, ahead, htokens]
    rfl

lemma Next.opens (h : c.Next t) (hne : [] ∉ l) : c.Opens t.span l :=
  h.starts.opens hne

end Cursor

namespace Parse

/-! ### What a computation does -/

/-- What is said of the results of a computation: the token sequences that a result is read from, the nodes in it, the
result at other places, and what else holds of it where the reader stops. -/
structure Spec (α : Type) where
  readings : α → Language Token
  nodes : α → List Node
  moved : Relabeling → α → α
  holds : α → Cursor → Prop

/-- Results of which something holds wherever the reader stops. -/
abbrev Spec.tree {α : Type} (readings : α → Language Token) (nodes : α → List Node) (moved : Relabeling → α → α)
    (P : α → Prop) : Spec α :=
  ⟨readings,nodes,moved,fun a _ => P a⟩

/-- Results without nodes. -/
abbrev Spec.text {α : Type} (readings : α → Language Token) (moved : Relabeling → α → α := fun _ a => a) : Spec α :=
  .tree readings (fun _ => []) moved fun _ => True

variable {α β : Type} {V : Shift} {b : Nat} {c0 c : Cursor} {l l' : Language Token} {N : List Node} {p p' q q' : Parse α}
    {S : Spec α} {S' : Spec β}

/-- A result is as `S` says of all that was read since `c0`, or `c0` is to blame for the error. The second result is the
same at other places. -/
def Ends (V : Shift) (c0 : Cursor) (S : Spec α) (x x' : Except ReadFailure (α × Cursor)) : Prop :=
  match x with
  | .ok r => x' = .ok (S.moved V.span r.1, V.cursor r.2) ∧ c0.Read (S.readings r.1) (S.nodes r.1) r.2 ∧ S.holds r.1 r.2
  | .error f => x' = .error (V.failure f) ∧ c0.Blames f.error

/-- Run from `c`, where one of the sequences of `l` was read and the nodes `N` were made since `c0`, the computation `p` ends
as `S` says, if no more than `b` tokens were ahead of `c0`. From the same tokens at other places `p'` ends in the same way. -/
def ReadsOn (V : Shift) (b : Nat) (c0 : Cursor) (l : Language Token) (N : List Node) (c : Cursor) (p p' : Parse α)
    (S : Spec α) : Prop :=
  c0.tokens.length ≤ b → c0.Read l N c → Ends V c0 S (p c) (p' (V.cursor c))

/-- The computation reads what `S` says. -/
def Reads (V : Shift) (b : Nat) (p p' : Parse α) (S : Spec α) : Prop :=
  ∀ c, ReadsOn V b c 1 [] c p p' S

/-- The computation leaves the reader where it is and does not see places. It fails only if the tokens end with an error. -/
def Looks (p : Parse α) : Prop :=
  ∀ c, (∃ a, p c = .ok (a, c) ∧ ∀ V : Shift, p (V.cursor c) = .ok (a, V.cursor c)) ∨
    ∃ e, p c = .error e ∧ c.ending = .error e.error ∧ ∀ V : Shift, p (V.cursor c) = .error (V.failure e)

lemma run_bind_ok {f : α → Parse β} {r : α × Cursor} (h : p c = .ok r) : (p >>= f) c = f r.1 r.2 := by
  change (p c).bind (fun r => f r.1 r.2) = _
  rw [h]
  rfl

lemma run_bind_error {f : α → Parse β} {e : ReadFailure} (h : p c = .error e) : (p >>= f) c = .error e := by
  change (p c).bind (fun r => f r.1 r.2) = _
  rw [h]
  rfl

/-! ### The tokens ahead at other places -/

lemma finish_cases (c : Cursor) : (c.ending = .ok c.last ∧ finish c = .ok (c.last, c) ∧
      ∀ V : Shift, finish (V.cursor c) = .ok (c.last.respan V.span, V.cursor c)) ∨
    ∃ e, c.ending = .error e.error ∧ finish c = .error e ∧ ∀ V : Shift, finish (V.cursor c) = .error (V.failure e) := by
  cases hfaults : c.faults with
  | nil => exact .inl ⟨by simp [ending, endingAt, hfaults],by simp [finish, hfaults],fun V => by simp [finish, hfaults]⟩
  | cons x faults =>
    refine .inr ⟨⟨x.1,{ c with tokens := c.tokens ++ x.2, faults := faults }⟩,?_,by simp [finish, hfaults],fun V => ?_⟩
    · simp [ending, endingAt, hfaults]
    · simp [finish, hfaults, Shift.failure]

lemma peekAt_cases (offset : Nat) (c : Cursor) : (∃ t, peekAt offset c = .ok (t, c) ∧
      ∀ V : Shift, peekAt offset (V.cursor c) = .ok (t.respan V.span, V.cursor c)) ∨
    ∃ e, peekAt offset c = .error e ∧ c.ending = .error e.error ∧
      ∀ V : Shift, peekAt offset (V.cursor c) = .error (V.failure e) := by
  cases ht : c.tokens[offset]? with
  | some t => exact .inl ⟨t,by simp [peekAt, ht],fun V => by simp [peekAt, ht]⟩
  | none =>
    have hpeek : peekAt offset c = finish c := by rw [peekAt, ht]
    have hpeekV (V : Shift) : peekAt offset (V.cursor c) = finish (V.cursor c) := by simp [peekAt, ht]
    simp only [hpeek, hpeekV]
    obtain ⟨-,h,hV⟩ | ⟨e,hending,h,hV⟩ := finish_cases c
    · exact .inl ⟨c.last,h,hV⟩
    · exact .inr ⟨e,h,hending,hV⟩

lemma looks_checkAt (offset : Nat) (kind : Kind) : Looks (checkAt offset kind) := by
  intro c
  obtain ⟨t,ht,htV⟩ | ⟨e,he,hending,heV⟩ := peekAt_cases offset c
  · exact .inl ⟨t.kind.sameClass kind,run_bind_ok ht,fun V => run_bind_ok (htV V)⟩
  · exact .inr ⟨e,run_bind_error he,hending,fun V => run_bind_error (heV V)⟩

namespace Looks

lemma pure (a : α) : Looks (Pure.pure a) :=
  fun _ => .inl ⟨a,rfl,fun _ => rfl⟩

lemma bind {f : α → Parse β} (h : Looks p) (hf : ∀ a, Looks (f a)) : Looks (p >>= f) := by
  intro c
  obtain ⟨a,ha,haV⟩ | ⟨e,he,hending,heV⟩ := h c
  · have hrun (V : Shift) : (p >>= f) (V.cursor c) = f a (V.cursor c) := run_bind_ok (haV V)
    simp only [run_bind_ok ha, hrun]
    exact hf a c
  · exact .inr ⟨e,run_bind_error he,hending,fun V => run_bind_error (heV V)⟩

lemma ite {P : Prop} [Decidable P] (hp : Looks p) (hq : Looks q) : Looks (if P then p else q) := by
  split
  · exact hp
  · exact hq

end Looks

namespace ReadsOn

lemma pure {a a' : α} (h : l ≤ S.readings a ∧ N = S.nodes a ∧ S.holds a c) (ha : a' = S.moved V.span a) :
    ReadsOn V b c0 l N c (Pure.pure a) (Pure.pure a') S := by
  intro _ hc
  obtain ⟨hl,rfl,hholds⟩ := h
  subst ha
  exact ⟨rfl,hc.imp fun ts _ _ hts => hl hts,hholds⟩

lemma fail {span : Span} (h : c0.Blames ⟨cause,span⟩) :
    ReadsOn V b c0 l N c (Parse.fail cause span) (Parse.fail cause (V.span span)) S :=
  fun _ _ => ⟨rfl,h⟩

lemma ite {P : Prop} [Decidable P] (hp : ReadsOn V b c0 l N c p p' S) (hq : ReadsOn V b c0 l N c q q' S) :
    ReadsOn V b c0 l N c (if P then p else q) (if P then p' else q') S := by
  split
  · exact hp
  · exact hq

lemma of_taken (h : ∀ ts, c0.Sane → c0.Takes ts c → ts ∈ l → ts ∈ l') (hp : ReadsOn V b c0 l' N c p p' S) :
    ReadsOn V b c0 l N c p p' S :=
  fun hb hc => hp hb (hc.imp h)

lemma imp {readings : α → Language Token} {Q : α → Cursor → Prop} (h : ReadsOn V b c0 l N c p p' S) (hQ : ∀ a c',
      c0.Read (S.readings a) (S.nodes a) c' → S.holds a c' → c0.Read (readings a) (S.nodes a) c' ∧ Q a c') :
    ReadsOn V b c0 l N c p p' ⟨readings,S.nodes,S.moved,Q⟩ := by
  intro hb hc
  have hp := h hb hc
  cases hr : p c with
  | error e => rwa [hr] at hp
  | ok r =>
    rw [hr] at hp
    exact ⟨hp.1,hQ _ _ hp.2.1 hp.2.2⟩

lemma mono {Q : α → Cursor → Prop} (h : ReadsOn V b c0 l N c p p' S)
    (hQ : ∀ a c', c0.Read (S.readings a) (S.nodes a) c' → S.holds a c' → Q a c') :
    ReadsOn V b c0 l N c p p' ⟨S.readings,S.nodes,S.moved,Q⟩ :=
  h.imp fun a c' hread ha => ⟨hread,hQ a c' hread ha⟩

/-! #### One step and what comes after it -/

variable {f f' : α → Parse β}

lemma bind (h : ReadsOn V b c0 l N c p p' S) (hf : ∀ {c1} a, S.holds a c1 →
    ReadsOn V b c0 (S.readings a) (S.nodes a) c1 (f a) (f' (S.moved V.span a)) S') :
    ReadsOn V b c0 l N c (p >>= f) (p' >>= f') S' := by
  intro hb hc
  have hp := h hb hc
  cases hr : p c with
  | error e =>
    rw [hr] at hp
    rw [run_bind_error hr, run_bind_error hp.1]
    exact ⟨rfl,hp.2⟩
  | ok r =>
    rw [hr] at hp
    rw [run_bind_ok hr, run_bind_ok hp.1]
    exact hf r.1 hp.2.2 hb hp.2.1

lemma look (h : Looks p) (hf : ∀ a, ReadsOn V b c0 l N c (f a) (f' a) S') : ReadsOn V b c0 l N c (p >>= f) (p >>= f') S' := by
  intro hb hc
  obtain ⟨a,ha,haV⟩ | ⟨e,he,hending,heV⟩ := h c
  · rw [run_bind_ok ha, run_bind_ok (haV V)]
    exact hf a hb hc
  · rw [run_bind_error he, run_bind_error (heV V)]
    exact ⟨rfl,.inl (hc.ending ▸ hending)⟩

lemma readHere (h : ReadsOn V b c 1 [] c p p' S) (hf : ∀ {c1} {_ : c1.tokens.length ≤ c.tokens.length} a, S.holds a c1 →
    ReadsOn V b c0 (l * S.readings a) (N ++ S.nodes a) c1 (f a) (f' (S.moved V.span a)) S') :
    ReadsOn V b c0 l N c (p >>= f) (p' >>= f') S' := by
  intro hb hc
  have hp := h (hc.length_le.trans hb) (.refl hc.here)
  cases hr : p c with
  | error e =>
    rw [hr] at hp
    rw [run_bind_error hr, run_bind_error hp.1]
    exact ⟨rfl,hc.blames hp.2⟩
  | ok r =>
    rw [hr] at hp
    rw [run_bind_ok hr, run_bind_ok hp.1]
    exact @hf r.2 hp.2.1.length_le r.1 hp.2.2 hb (hc.trans hp.2.1)

/-- A rule for fewer tokens can be called once a token was taken. -/
theorem callHere (h : Reads V b p p' S) (hl : [] ∉ l) (hf : ∀ {c1} {_ : c1.tokens.length ≤ c.tokens.length} a, S.holds a c1 →
    ReadsOn V (b + 1) c0 (l * S.readings a) (N ++ S.nodes a) c1 (f a) (f' (S.moved V.span a)) S') :
    ReadsOn V (b + 1) c0 l N c (p >>= f) (p' >>= f') S' := by
  intro hb hc
  have hlt := hc.length_lt hl
  exact readHere (fun _ => h c (by omega)) @hf hb hc

variable {r : α → Language Token} {n : α → List Node} {g : Relabeling → α → α} {P : α → Prop}

lemma read (h : Reads V b p p' (.tree r n g P)) (hf : ∀ {c1} {_ : c1.tokens.length ≤ c.tokens.length} a, P a →
    ReadsOn V b c0 (l * r a) (N ++ n a) c1 (f a) (f' (g V.span a)) S') : ReadsOn V b c0 l N c (p >>= f) (p' >>= f') S' :=
  readHere (h c) @hf

lemma call (h : Reads V b p p' (.tree r n g P)) (hl : [] ∉ l) (hf : ∀ {c1} {_ : c1.tokens.length ≤ c.tokens.length} a, P a →
    ReadsOn V (b + 1) c0 (l * r a) (N ++ n a) c1 (f a) (f' (g V.span a)) S') :
    ReadsOn V (b + 1) c0 l N c (p >>= f) (p' >>= f') S' :=
  callHere h hl @hf

lemma since {f f' : Span → Parse β} (hf : ReadsOn V b c0 l N c (f ⟨start.start,max c.prevStop start.stop⟩)
      (f' (V.span ⟨start.start,max c.prevStop start.stop⟩)) S') :
    ReadsOn V b c0 l N c (spanSince start >>= f) (spanSince (V.span start) >>= f') S' := by
  rw [V.span_max] at hf
  exact hf

lemma span {f f' : Span → Parse β} (h : c0.Opens start l)
    (hf : ∀ span, ReadsOn V b c0 (covering span l) N c (f span) (f' (V.span span)) S') :
    ReadsOn V b c0 l N c (spanSince start >>= f) (spanSince (V.span start) >>= f') S' :=
  .since fun hb hc => hf _ hb (hc.covering h)

lemma remaining {f f' : Nat → Parse β} (hf : ReadsOn V b c0 l N c (f c.tokens.length) (f' c.tokens.length) S') :
    ReadsOn V b c0 l N c (Parse.remaining >>= f) (Parse.remaining >>= f') S' := by
  have hrun : Parse.remaining (V.cursor c) = .ok (c.tokens.length, V.cursor c) := by
    simp [Parse.remaining, Shift.cursor]
  intro hb hc
  rw [run_bind_ok hrun]
  exact hf hb hc

lemma node {form form' : ExprForm} {span span' : Span} {Q : Expr → Cursor → Prop} (h : l ≤ covering span form.readings)
    (hN : N = form.nodes) (hgrouped : form.Grouped) (hform : form' = form.respan V.span) (hspan : span' = V.span span)
    (hQ : ∀ id {c1 : Cursor}, c1.tokens = c.tokens → Q ⟨id,span,form⟩ c1) :
    ReadsOn V b c0 l N c (Parse.node form span) (Parse.node form' span') ⟨Expr.readings,Expr.nodes,Expr.respan,Q⟩ := by
  intro _ hc
  subst hN hform hspan
  refine ⟨rfl,?_,hQ _ rfl⟩
  exact (hc.imp fun _ _ _ hts => h hts).made (n := .expr ⟨c.nextId,span,form⟩) rfl (Groups.expr_iff.2 hgrouped)

lemma declare {make make' : NodeId → Span → α} {d : α → Decl} (hopens : c0.Opens start l)
    (hid : ∀ id span, (d (make id span)).id = id)
    (hmake : ∀ id span, make' id (V.span span) = S.moved V.span (make id span))
    (h : ∀ id span, covering span l ≤ S.readings (make id span) ∧
      N ++ [.decl (d (make id span))] = S.nodes (make id span) ∧ ∀ c', S.holds (make id span) c') :
    ReadsOn V b c0 l N c (do
      let id ← freshId
      return make id (← spanSince start)) (do
      let id ← freshId
      return make' id (← spanSince (V.span start))) S := by
  intro hb hc
  obtain ⟨hl,hN,ha⟩ := h c.nextId ⟨start.start,max c.prevStop start.stop⟩
  have hmake := hmake c.nextId ⟨start.start,max c.prevStop start.stop⟩
  rw [V.span_max] at hmake
  exact pure ⟨hl,hN,ha _⟩ hmake hb ((hc.covering hopens).made (hid _ _) (Groups.decl _))

/-! #### The token ahead -/

lemma peek {f f' : Token → Parse β} (hf : ∀ t, c.Next t → ReadsOn V b c0 l N c (f t) (f' (t.respan V.span)) S') :
    ReadsOn V b c0 l N c (Parse.peek >>= f) (Parse.peek >>= f') S' := by
  intro hb hc
  obtain ⟨t,ht,htV⟩ | ⟨e,he,hending,heV⟩ := peekAt_cases 0 c
  · rw [Parse.peek, run_bind_ok ht, run_bind_ok (htV V)]
    refine hf t ?_ hb hc
    cases htokens : c.tokens with
    | cons u us =>
      obtain rfl : u = t := by simpa [peekAt, htokens] using ht
      refine ⟨.inl (by simp [htokens]),by simp [ahead, htokens],fun v vs hv => ?_⟩
      rw [htokens] at hv
      cases hv
      rfl
    | nil =>
      have hending : c.ending = .ok t := by
        obtain ⟨hending,hfinish,-⟩ | ⟨e,-,hfinish,-⟩ := finish_cases c
        · simp_all [peekAt]
        · simp_all [peekAt]
      refine ⟨.inr hending,by simp [ahead, htokens, kindAhead, hc.here.ending t hending],fun u us hu => ?_⟩
      rw [htokens] at hu
      cases hu
  · rw [Parse.peek, run_bind_error he, run_bind_error (heV V)]
    exact ⟨rfl,.inl (hc.ending ▸ hending)⟩

lemma glance {kind : Kind} (hp : c.ahead.sameClass kind = true → ReadsOn V b c0 l N c p p' S)
    (hq : c.ahead.sameClass kind = false → ReadsOn V b c0 l N c q q' S) :
    ReadsOn V b c0 l N c (check kind >>= fun b => if b then p else q) (check kind >>= fun b => if b then p' else q') S := by
  rw [check, checkAt, bind_assoc, bind_assoc]
  refine .peek fun t ht => ?_
  rw [pure_bind, pure_bind, Token.respan, ht.kind]
  split
  · next h => exact hp h
  · next h => exact hq (Bool.not_eq_true _ ▸ h)

lemma advance {f f' : Token → Parse β} (hend : c.ahead = .eof → ∀ span, ∃ cause, cause.isGrammatical = true ∧
      f ⟨.eof,span⟩ = Parse.fail cause span ∧ f' ⟨.eof,V.span span⟩ = Parse.fail cause (V.span span))
    (hf : ∀ {c1} {_ : c1.tokens.length < c.tokens.length} t, t.kind = c.ahead → c0.Shows t → t.kind.IsPlain → c.Starts t.span →
      ReadsOn V b c0 (l * tokenAt t.kind t.span) N c1 (f t) (f' (t.respan V.span)) S') :
    ReadsOn V b c0 l N c (Parse.advance >>= f) (Parse.advance >>= f') S' := by
  intro hb hc
  cases htokens : c.tokens with
  | cons t ts =>
    have hrunV : Parse.advance (V.cursor c) = .ok (t.respan V.span, V.cursor { c with tokens := ts, prevStop := t.span.stop }) :=
      run_advance (by rw [Shift.cursor, htokens, map_cons])
    have ht : t ∈ c.tokens := by simp [htokens]
    rw [run_bind_ok (run_advance htokens), run_bind_ok hrunV]
    refine @hf _ (by simp [htokens]) t (by simp [ahead, htokens]) (hc.shows (.inl ht)) (hc.here.plain t ht)
      (fun u us hu => ?_) hb (hc.take htokens)
    rw [htokens] at hu
    cases hu
    rfl
  | nil =>
    have hnext : Parse.next c = finish c := by rw [Parse.next, htokens]
    have hnextV : Parse.next (V.cursor c) = finish (V.cursor c) := by rw [Parse.next, Shift.cursor, htokens, map_nil]
    obtain ⟨hending,h,hV⟩ | ⟨e,hending,h,hV⟩ := finish_cases c
    · -- The end of the input is handed out again and again, so it is `f` that has to fail.
      have heof := hc.here.ending _ hending
      obtain ⟨cause,hsyntactic,hcause,hcauseV⟩ := hend (by simp [ahead, htokens, kindAhead]) c.last.span
      have hrun : Parse.advance c = .ok (⟨.eof,c.last.span⟩, { c with prevStop := c.last.span.stop }) := by
        rw [Parse.advance, run_bind_ok (hnext.trans h), ← heof]
        rfl
      have hrunV : Parse.advance (V.cursor c) =
          .ok (⟨.eof,V.span c.last.span⟩, V.cursor { c with prevStop := c.last.span.stop }) := by
        rw [Parse.advance, run_bind_ok (hnextV.trans (hV V)), ← heof]
        rfl
      rw [run_bind_ok hrun, run_bind_ok hrunV, hcause, hcauseV]
      exact ⟨rfl,(hc.shows (.inr hending)).blames hsyntactic⟩
    · have hrun : Parse.advance c = .error e := run_bind_error (hnext.trans h)
      have hrunV : Parse.advance (V.cursor c) = .error (V.failure e) := run_bind_error (hnextV.trans (hV V))
      rw [run_bind_error hrun, run_bind_error hrunV]
      exact ⟨rfl,.inl (hc.ending ▸ hending)⟩

lemma take {kind : Kind} {f f' : Token → Parse β} (hkind : kind.IsFixed) (h : c.ahead.sameClass kind = true)
    (hf : ∀ {c1} {_ : c1.tokens.length < c.tokens.length} t, c.Starts t.span →
      ReadsOn V b c0 (l * token kind) N c1 (f t) (f' (t.respan V.span)) S') :
    ReadsOn V b c0 l N c (Parse.advance >>= f) (Parse.advance >>= f') S' := by
  refine .advance (fun heof => ?_) fun {_ hlt} t ht _ _ hstarts => ?_
  · rw [heof, hkind.ne_eof] at h
    cases h
  · rw [hkind.unique t.kind (ht ▸ h)]
    exact .of_taken (fun _ _ _ => fun hts => mul_le_mul' le_rfl (tokenAt_le_token _ _) hts) (@hf _ hlt t hstarts)

lemma choose {kind : Kind} (hkind : kind.IsFixed)
    (hp : ∀ {c1} {_ : c1.tokens.length < c.tokens.length} {_ : c.ahead.sameClass kind = true},
      ReadsOn V b c0 (l * token kind) N c1 p p' S) (hq : ∀ {_ : c.ahead.sameClass kind = false}, ReadsOn V b c0 l N c q q' S) :
    ReadsOn V b c0 l N c (eat kind >>= fun b => if b then p else q) (eat kind >>= fun b => if b then p' else q') S := by
  have heat (p q : Parse α) : (eat kind >>= fun b => if b then p else q) =
      check kind >>= fun b => if b then Parse.advance >>= fun _ => p else q := by
    rw [eat, bind_assoc]
    congr 1
    funext b
    cases b <;> simp
  rw [heat, heat]
  exact .glance (fun h => .take hkind h fun {_ hlt} _ _ => @hp _ hlt h) fun h => @hq h

end ReadsOn

/-! ### Single tokens -/

lemma run_expect {kind : Kind} {c' : Cursor} (h : next c = .ok (t, c')) : expect kind c =
    if t.kind.sameClass kind then .ok (t, { c' with prevStop := t.span.stop })
    else .error ⟨⟨.expected (.kind kind) t.kind,t.span⟩,c'⟩ := by
  rw [expect, run_bind_ok h]
  split <;> rfl

lemma readsOn_expect {kind : Kind} (hkind : kind.IsFixed) {c : Cursor} : ReadsOn V b c 1 [] c (expect kind) (expect kind)
    ⟨fun _ => token kind,fun _ => [],Token.respan,fun t _ => c.Starts t.span⟩ := by
  intro _ hc
  cases htokens : c.tokens with
  | cons t ts =>
    have hnextV : next (V.cursor c) = .ok (t.respan V.span, V.cursor { c with tokens := ts }) :=
      run_next (by rw [Shift.cursor, htokens, map_cons])
    rw [run_expect (run_next htokens), run_expect hnextV]
    by_cases h : t.kind.sameClass kind = true
    · rw [if_pos h, if_pos (show (t.respan V.span).kind.sameClass kind = true from h)]
      refine ⟨rfl,(hc.take htokens).imp fun us _ _ hus => ?_,fun u us hu => ?_⟩
      · rw [one_mul, hkind.unique _ h] at hus
        exact tokenAt_le_token _ _ hus
      · rw [htokens] at hu
        cases hu
        rfl
    · rw [if_neg h, if_neg (show ¬(t.respan V.span).kind.sameClass kind = true from h)]
      exact ⟨rfl,Cursor.Shows.blames (.inl (by simp [htokens])) rfl⟩
  | nil =>
    have hnext : next c = finish c := by rw [next, htokens]
    have hnextV : next (V.cursor c) = finish (V.cursor c) := by rw [next, Shift.cursor, htokens, map_nil]
    obtain ⟨hending,h,hV⟩ | ⟨e,hending,h,hV⟩ := finish_cases c
    · have hclass : ¬c.last.kind.sameClass kind = true := by simp [hc.here.ending _ hending, hkind.ne_eof]
      rw [run_expect (hnext.trans h), run_expect (hnextV.trans (hV V)), if_neg hclass,
        if_neg (show ¬(c.last.respan V.span).kind.sameClass kind = true from hclass)]
      exact ⟨rfl,Cursor.Shows.blames (.inr hending) rfl⟩
    · rw [Parse.expect, run_bind_error (hnext.trans h), run_bind_error (hnextV.trans (hV V))]
      exact ⟨rfl,.inl hending⟩

lemma reads_mark (k : Keyword) : Reads V b (eat (.keyword k)) (eat (.keyword k)) (.text (marked k)) := by
  intro c
  have heat : eat (.keyword k) = eat (.keyword k) >>= fun b => if b then pure true else pure false := by
    conv_lhs => rw [← bind_pure (eat (.keyword k))]
    congr 1
    funext b
    cases b <;> rfl
  rw [heat]
  exact .choose (.keyword k) (.pure (by simp [marked]) rfl) (.pure (by simp [marked]) rfl)

lemma reads_word {f : String → Span → α} {what : Expected}
    (hf : ∀ name span, f name (V.span span) = S.moved V.span (f name span))
    (hS : ∀ name span c, tokenAt (.ofWord name) span ≤ S.readings (f name span) ∧ [] = S.nodes (f name span) ∧
      S.holds (f name span) c) :
    let p : Parse α := do
      let t ← advance
      match t.kind with
      | .text .identifier name => return f name t.span
      | .keyword .trueK => return f "true" t.span
      | .keyword .falseK => return f "false" t.span
      | k => fail (.expected what k) t.span
    Reads V b p p S := by
  refine fun c => .advance (fun _ _ => ⟨.expected what .eof,rfl,rfl,rfl⟩) fun {c1 _} t _ hshows hplain _ => ?_
  obtain ⟨kind,span⟩ := t
  have named (name : String) (h : kind = .ofWord name) : ReadsOn V b c (1 * tokenAt kind span) [] c1
      (Pure.pure (f name span)) (Pure.pure (f name (V.span span))) S := by
    rw [one_mul, h]
    exact .pure (hS name span c1) (hf name span)
  cases kind with
  | text cls name =>
    cases cls with
    -- The text of a name is no keyword.
    | identifier => exact named name hplain.symm
    | _ => exact .fail (hshows.blames rfl)
  | keyword k =>
    cases k with
    | trueK => exact named _ rfl
    | falseK => exact named _ rfl
    | _ => exact .fail (hshows.blames rfl)
  | _ => exact .fail (hshows.blames rfl)

lemma reads_bindingName : Reads V b bindingName bindingName
    (.text (fun r => tokenAt (.ofWord r.1) r.2) fun f r => (r.1, f.place r.2)) :=
  reads_word (f := Prod.mk) (fun _ _ => rfl) fun _ _ _ => ⟨le_rfl,rfl,trivial⟩

lemma reads_identifier : Reads V b identifier identifier (.text fun name => token (.ofWord name)) := by
  refine fun c => .advance (fun _ _ => ⟨.expected .identifier .eof,rfl,rfl,rfl⟩) fun t _ hshows hplain _ => ?_
  obtain ⟨kind,span⟩ := t
  cases kind with
  | text cls name =>
    cases cls with
    | identifier =>
      have hname : 1 * tokenAt (.text .identifier name) span ≤ token (.ofWord name) := by
        rw [one_mul, show Kind.ofWord name = _ from hplain]
        exact tokenAt_le_token _ _
      change ReadsOn V b c _ [] _ (Pure.pure name) (Pure.pure name) _
      exact .pure ⟨hname,rfl,trivial⟩ rfl
    | _ => exact .fail (hshows.blames rfl)
  | _ => exact .fail (hshows.blames rfl)

namespace ReadsOn

variable {kind : Kind}

lemma expect {q q' : Parse β} (hkind : kind.IsFixed)
    (hq : ∀ {c1} {_ : c1.tokens.length ≤ c.tokens.length}, ReadsOn V b c0 (l * token kind) N c1 q q' S') :
    ReadsOn V b c0 l N c (Parse.expect kind >>= fun _ => q) (Parse.expect kind >>= fun _ => q') S' :=
  .readHere (readsOn_expect hkind) fun {_ hle} _ _ => by simpa using @hq _ hle

lemma first {f f' : Token → Parse β} (hkind : kind.IsFixed)
    (hf : ∀ {c1} t, c.Starts t.span → ReadsOn V b c (token kind) [] c1 (f t) (f' (t.respan V.span)) S') :
    ReadsOn V b c 1 [] c (Parse.expect kind >>= f) (Parse.expect kind >>= f') S' :=
  .readHere (readsOn_expect hkind) fun t hstarts => by simpa using hf t hstarts

end ReadsOn

/-! ### Options and repetition -/

section Repetition

variable {r : α → Language Token} {n : α → List Node} {g : Relabeling → α → α} {P : α → Prop}

/-- What is said of an option, given what is said of what it may hold. -/
structure Optional (kind : Kind) (r : α → Language Token) (n : α → List Node) (g : Relabeling → α → α) (P : α → Prop)
    (rs : Option α → Language Token) (ns : Option α → List Node) (gs : Relabeling → Option α → Option α)
    (Ps : Option α → Prop) : Prop where
  none : rs none = 1 ∧ ns none = [] ∧ (∀ f, gs f none = none) ∧ Ps none
  some : ∀ a, rs (some a) = token kind * r a ∧ ns (some a) = n a ∧ (∀ f, gs f (some a) = some (g f a)) ∧ (P a → Ps (some a))

lemma Reads.optionally {kind : Kind} (hkind : kind.IsFixed) {rs : Option α → Language Token} {ns : Option α → List Node}
    {gs : Relabeling → Option α → Option α} {Ps : Option α → Prop} (hO : Optional kind r n g P rs ns gs Ps)
    (h : Reads V b p p' (.tree r n g P)) :
    Reads V (b + 1) (Parse.optionally kind p) (Parse.optionally kind p') (.tree rs ns gs Ps) := by
  refine fun c => .choose hkind (.call h (by simp) fun a ha => .pure ?_ ?_) (.pure ?_ ?_)
  · obtain ⟨hrs,hns,-,hPs⟩ := hO.some a
    simp [hrs, hns, hPs ha]
  · exact ((hO.some a).2.2.1 _).symm
  · obtain ⟨hrs,hns,-,hPs⟩ := hO.none
    simp [hrs, hns, hPs]
  · exact (hO.none.2.2.1 _).symm

/-- What is said of a list, given what is said of its elements. -/
structure Elementwise (r : α → Language Token) (n : α → List Node) (g : Relabeling → α → α) (P : α → Prop)
    (rs : List α → List (Language Token)) (ns : List α → List Node) (gs : Relabeling → List α → List α)
    (Ps : List α → Prop) : Prop where
  nil : rs [] = [] ∧ ns [] = [] ∧ (∀ f, gs f [] = []) ∧ Ps []
  cons : ∀ a as, rs (a :: as) = r a :: rs as ∧ ns (a :: as) = n a ++ ns as ∧ (∀ f, gs f (a :: as) = g f a :: gs f as) ∧
    (P a → Ps as → Ps (a :: as))

lemma le_listed_singleton (l : Language Token) : l ≤ listed [l] :=
  calc l = l * 1 := (mul_one l).symm
    _ ≤ l * (1 + token (.punct .comma)) := mul_le_mul' le_rfl fun _ h => .inl h

lemma mul_comma_mul_listed_le (l : Language Token) (ls : List (Language Token)) :
    l * token (.punct .comma) * listed ls ≤ listed (l :: ls) := by
  cases ls with
  | nil =>
    rw [listed, listed, mul_one]
    exact mul_le_mul' le_rfl fun _ h => .inr h
  | cons l' ls => exact (mul_assoc ..).le

variable {gs : Relabeling → List α → List α} {ns : List α → List Node} {Ps : List α → Prop}

/-- An element that is not empty leaves fewer tokens. -/
theorem Reads.shrinks (h : Reads V b p p' (.tree r n g P)) (hne : ∀ a, [] ∉ r a) (c : Cursor) :
    ReadsOn V b c 1 [] c p p' ⟨r,n,g,fun a c1 => P a ∧ c1.tokens.length < c.tokens.length⟩ :=
  (h c).mono fun a _ hread ha => ⟨ha,hread.length_lt (hne a)⟩

/-- With as many rounds as tokens there are enough of them, and `d` more change nothing. -/
theorem Reads.sepUntilWithin (d : Nat) {close : Kind} {rs : List α → List (Language Token)}
    (hL : Elementwise r n g P rs ns gs Ps) (hne : ∀ a, [] ∉ r a) (h : Reads V b p p' (.tree r n g P)) :
    ∀ {k} (c : Cursor), c.tokens.length ≤ k → ReadsOn V b c 1 [] c (Parse.sepUntilWithin close p k)
      (Parse.sepUntilWithin close p' (d + k)) (.tree (fun as => listed (rs as)) ns gs Ps) := by
  obtain ⟨hrs,hns,hgs,hPs⟩ := hL.nil
  have empty {c : Cursor} : ReadsOn V b c 1 [] c (Pure.pure []) (Pure.pure []) (.tree (fun as => listed (rs as)) ns gs Ps) :=
    .pure ⟨by simp [hrs, listed],hns.symm,hPs⟩ (hgs _).symm
  intro k
  induction k with
  | zero =>
    intro c hk
    cases d with
    | zero | succ => exact .glance (fun _ => empty) fun _ => .readHere (h.shrinks hne c) fun a ha => absurd ha.2 (by omega)
  | succ k ih =>
    intro c hk
    refine .glance (fun _ => empty) fun _ => .readHere (h.shrinks hne c) fun {c1 _} a ha => ?_
    obtain ⟨ha,hlt⟩ := ha
    refine .choose (.punct .comma) (fun {c2 _} => .readHere (ih c2 (by omega)) fun as has => ?_) ?_
    · obtain ⟨hrs',hns',hgs',hPs'⟩ := hL.cons a as
      refine .pure ⟨?_,by simp [hns'],hPs' ha has⟩ (hgs' _).symm
      simpa [hrs'] using mul_comma_mul_listed_le (r a) (rs as)
    · obtain ⟨hrs',hns',hgs',hPs'⟩ := hL.cons a []
      refine .pure ⟨?_,by simp [hns', hns],hPs' ha hPs⟩ (by simp [hgs', hgs])
      simpa [hrs', hrs] using le_listed_singleton (r a)

lemma Reads.sepUntil {close : Kind} {rs : List α → List (Language Token)} (hL : Elementwise r n g P rs ns gs Ps)
    (hne : ∀ a, [] ∉ r a) (h : Reads V b p p' (.tree r n g P)) :
    Reads V b (Parse.sepUntil close p) (Parse.sepUntil close p') (.tree (fun as => listed (rs as)) ns gs Ps) :=
  fun c => .remaining (by simpa using h.sepUntilWithin 0 hL hne c le_rfl)

/-- What is said of elements one after the other, given what is said of each. -/
structure Successive (r : α → Language Token) (n : α → List Node) (g : Relabeling → α → α) (P : α → Prop)
    (rs : List α → Language Token) (ns : List α → List Node) (gs : Relabeling → List α → List α)
    (Ps : List α → Prop) : Prop where
  nil : rs [] = 1 ∧ ns [] = [] ∧ (∀ f, gs f [] = []) ∧ Ps []
  cons : ∀ a as, rs (a :: as) = r a * rs as ∧ ns (a :: as) = n a ++ ns as ∧ (∀ f, gs f (a :: as) = g f a :: gs f as) ∧
    (P a → Ps as → Ps (a :: as))

variable {rs : List α → Language Token}

/-- Elements up to a closing token, which the end of the input is: each takes a token, so that there are enough rounds. -/
theorem Reads.manyWithin (d : Nat) {closes : List Kind} (heof : .eof ∈ closes) (hL : Successive r n g P rs ns gs Ps)
    (hne : ∀ a, [] ∉ r a) (h : Reads V b p p' (.tree r n g P)) : ∀ {k} (c : Cursor), c.tokens.length ≤ k →
      ReadsOn V b c 1 [] c (Parse.manyWithin closes p k) (Parse.manyWithin closes p' (d + k))
        ⟨rs,ns,gs,fun as c => Ps as ∧ ∃ t,c.Next t ∧ closes.any t.kind.sameClass⟩ := by
  have stop {c : Cursor} {t : Token} (ht : c.Next t) (hclose : closes.any t.kind.sameClass = true) : ReadsOn V b c 1 [] c
      (Pure.pure []) (Pure.pure []) ⟨rs,ns,gs,fun as c => Ps as ∧ ∃ t,c.Next t ∧ closes.any t.kind.sameClass⟩ :=
    .pure ⟨hL.nil.1.ge,hL.nil.2.1.symm,hL.nil.2.2.2,t,ht,hclose⟩ (hL.nil.2.2.1 _).symm
  intro k
  induction k with
  | zero =>
    intro c hk
    have hclose {t : Token} (ht : c.Next t) : closes.any t.kind.sameClass = true := by
      refine any_eq_true.2 ⟨.eof,heof,?_⟩
      rw [ht.kind, ahead, length_eq_zero_iff.1 (Nat.le_zero.1 hk)]
      rfl
    cases d with
    | zero => exact .peek fun t ht => stop ht (hclose ht)
    | succ d =>
      refine .peek fun t ht => ?_
      rw [Token.respan, if_pos (hclose ht)]
      exact stop ht (hclose ht)
  | succ k ih =>
    refine fun c hk => .peek fun t ht => ?_
    dsimp only [Token.respan]
    split
    · next hclose => exact stop ht hclose
    · refine .readHere (h.shrinks hne c) fun {c1 _} a ha => ?_
      obtain ⟨ha,hlt⟩ := ha
      refine .readHere (ih c1 (by omega)) fun as has => ?_
      obtain ⟨hrs,hns,hgs,hPs⟩ := hL.cons a as
      exact .pure ⟨by simp [hrs],by simp [hns],hPs ha has.1,has.2⟩ (hgs _).symm

lemma Reads.many {closes : List Kind} (heof : .eof ∈ closes) (hL : Successive r n g P rs ns gs Ps)
    (hne : ∀ a, [] ∉ r a) (h : Reads V b p p' (.tree r n g P)) : Reads V b (Parse.many closes p) (Parse.many closes p')
      ⟨rs,ns,gs,fun as c => Ps as ∧ ∃ t,c.Next t ∧ closes.any t.kind.sameClass⟩ :=
  fun c => .remaining (by simpa using h.manyWithin 0 heof hL hne c le_rfl)

/-- What a step after `a` from `c` gives: either the result is longer, and there are fewer tokens left, or it stops. -/
abbrev Spec.step (S : Spec α) (Q : α → Cursor → Prop) (a : α) (c : Cursor) : Spec (Option α) :=
  ⟨fun o => S.readings (o.getD a),fun o => S.nodes (o.getD a),fun f o => o.map (S.moved f),
    fun o c' => o.elim (Q a c') fun b => S.holds b c' ∧ c'.tokens.length < c.tokens.length⟩

/-- What is read may be extended. A step that can be made takes a token, so there are fewer steps than tokens and the last
of them is one that cannot be made. -/
theorem ReadsOn.extendWithin (d : Nat) {Q : α → Cursor → Prop} {step step' : α → Parse (Option α)} (hstep : ∀ {c} a,
      S.holds a c → ReadsOn V b c0 (S.readings a) (S.nodes a) c (step a) (step' (S.moved V.span a)) (S.step Q a c)) :
    ∀ {k} {c : Cursor} a, c.tokens.length ≤ k → S.holds a c →
      ReadsOn V b c0 (S.readings a) (S.nodes a) c (Parse.extendWithin step k a)
        (Parse.extendWithin step' (d + k) (S.moved V.span a)) ⟨S.readings,S.nodes,S.moved,Q⟩ := by
  intro k
  induction k with
  | zero =>
    intro c a hk ha
    cases d with
    | zero | succ =>
      refine (hstep a ha).bind fun o ho => ?_
      cases o with
      | none => exact .pure ⟨le_rfl,rfl,ho⟩ rfl
      | some b => exact absurd ho.2 (by omega)
  | succ k ih =>
    intro c a hk ha
    refine (hstep a ha).bind fun o ho => ?_
    cases o with
    | none => exact .pure ⟨le_rfl,rfl,ho⟩ rfl
    | some b => exact ih b (by have := ho.2; omega) ho.1

lemma Reads.extend {Q : α → Cursor → Prop} {step step' : α → Parse (Option α)} (hp : Reads V b p p' S)
    (hstep : ∀ {c0 c} a, S.holds a c →
      ReadsOn V b c0 (S.readings a) (S.nodes a) c (step a) (step' (S.moved V.span a)) (S.step Q a c)) :
    Reads V b (p >>= fun a => Parse.extend step a) (p' >>= fun a => Parse.extend step' a) ⟨S.readings,S.nodes,S.moved,Q⟩ := by
  refine fun c => (hp c).bind fun {c1} a ha => .remaining ?_
  have h := ReadsOn.extendWithin 0 (@hstep c) a (le_refl c1.tokens.length) ha
  rwa [Nat.zero_add] at h

end Repetition

end Parse

end Opal
