import Opal.Proofs.ConservedTokens
import Opal.Syntax.Cursor

/-!
# Readers of tokens

The parser reads from a cursor, a scanner hands out tokens from a buffer. Call by call both do the same, also after lexical
errors: each of these is handed out once and leaves what stands around it.
-/

namespace Opal

open List Parse

/-! ### A stream of tokens and errors -/

/-- What is found `n` places ahead in a stream, and the stream after that. An error on the way is found in its stead, and
leaves the stream. -/
def peekIn (n : Nat) (s : Stream' Scanned) : Scanned × Stream' Scanned :=
  match s.head, n with
  | .error e, _ => (.error e, s.tail)
  | .ok t, 0 => (.ok t, s)
  | .ok t, n + 1 => (peekIn n s.tail).map id (.cons (.ok t))

lemma peekIn_const (n : Nat) (t : Token) : peekIn n (.const (.ok t)) = (.ok t, .const (.ok t)) := by
  induction n with
  | zero => rfl
  | succ n ih =>
    change (peekIn n (.const (.ok t))).map id (Stream'.cons (.ok t)) = _
    rw [ih]
    exact congrArg (Prod.mk _) (Stream'.const_eq _).symm

namespace Lookahead

/-- The answer to a call where this stream is left, and the stream after the call. -/
def Call.answerIn (s : Stream' Scanned) : Call → Answer × Stream' Scanned
  | next => (.token s.head, s.tail)
  | peekAt n => (peekIn n s).map .token id
  | checkAt n kind => (peekIn n s).map (fun r => .verdict (r.map fun t => t.kind.sameClass kind)) id
  | expect kind => (.token (s.head.bind (demanded kind)), s.tail)

/-! ### Buffered tokens -/

/-- The tokens and errors that are left, with the end of the input again and again after them. -/
def stream (l : Lookahead) : Stream' Scanned :=
  (l.buffer.map .ok ++ l.pending) ++ₛ .const (.ok l.last)

lemma next_stream (l : Lookahead) : l.next.map id stream = (l.stream.head, l.stream.tail) := by
  obtain ⟨buffer,pending,last⟩ := l
  cases buffer with
  | cons => rfl
  | nil => cases pending <;> rfl

/-- The sequence with one more token before it. -/
def hold (t : Token) (l : Lookahead) : Lookahead :=
  { l with buffer := t :: l.buffer }

/-- To look behind a token is to look where it was taken away. -/
theorem peekAt_succ {l m : Lookahead} {t : Token} {n : Nat}
    (h : fill (n + 1 + 1 - l.buffer.length) l = (fill (n + 1 - m.buffer.length) m).map id (hold t)) :
    l.peekAt (n + 1) = (m.peekAt n).map id (hold t) := by
  unfold peekAt
  rw [h]
  cases fill (n + 1 - m.buffer.length) m with
  | mk stop r => cases stop <;> rfl

lemma peekAt_stream (n : Nat) (l : Lookahead) : (l.peekAt n).map id stream = peekIn n l.stream := by
  have step {l m : Lookahead} {t : Token} {n : Nat} (hl : l.stream = .cons (.ok t) m.stream)
      (h : l.peekAt (n + 1) = (m.peekAt n).map id (hold t)) (ih : (m.peekAt n).map id stream = peekIn n m.stream) :
      (l.peekAt (n + 1)).map id stream = peekIn (n + 1) l.stream := by
    rw [h, hl]
    change _ = (peekIn n m.stream).map id (Stream'.cons (.ok t))
    rw [← ih]
    rfl
  induction n generalizing l with
  | zero =>
    obtain ⟨buffer,pending,last⟩ := l
    cases buffer with
    | cons t buffer =>
      have hfill : fill (0 + 1 - (t :: buffer).length) ⟨t :: buffer,pending,last⟩ = (.ok (), ⟨t :: buffer,pending,last⟩) := by
        simp [fill, gather]
      rw [peekAt, hfill]
      rfl
    | nil =>
      cases pending with
      | nil => exact congrArg (Prod.mk _) (Stream'.const_eq _).symm
      | cons s pending => cases s <;> rfl
  | succ n ih =>
    obtain ⟨buffer,pending,last⟩ := l
    cases buffer with
    | cons t buffer =>
      refine step (m := ⟨buffer,pending,last⟩) rfl (peekAt_succ ?_) (ih _)
      rw [length_cons, Nat.add_sub_add_right]
      rfl
    | nil =>
      cases pending with
      | nil => exact step (m := ⟨[],[],last⟩) (Stream'.const_eq _) (peekAt_succ rfl) (ih _)
      | cons s pending =>
        cases s with
        | error e => rfl
        | ok t => exact step (m := ⟨[],pending,last⟩) rfl (peekAt_succ rfl) (ih _)

lemma perform_stream (l : Lookahead) (call : Call) : (call.perform l).map id stream = call.answerIn l.stream := by
  have hnext := l.next_stream
  cases call with
  | next => exact congrArg (Prod.map Answer.token id) hnext
  | peekAt n => exact congrArg (Prod.map Answer.token id) (l.peekAt_stream n)
  | checkAt n kind =>
    exact congrArg (Prod.map (fun r : Scanned => Answer.verdict (r.map fun t => t.kind.sameClass kind)) id) (peekAt_stream n l)
  | expect kind => exact congrArg (Prod.map (fun r : Scanned => Answer.token (r.bind (demanded kind))) id) hnext

end Lookahead

/-! ### Cursors -/

namespace Cursor

/-- The tokens and errors that are left, with the end of the input again and again after them. -/
def stream (c : Cursor) : Stream' Scanned :=
  (c.tokens.map .ok ++ c.faults.flatMap fun x => .error x.1 :: x.2.map .ok) ++ₛ .const (.ok c.last)

/-- The reader after a run, whether or not it failed. -/
def after {α : Type} : Except ReadFailure (α × Cursor) → Cursor
  | .ok (_, c) => c
  | .error f => f.reader

/-- What a computation answers, and the reader after it. -/
def ask {α : Type} (p : Parse α) (c : Cursor) : Except SyntaxError α × Cursor :=
  (outcome (p c), after (p c))

/-- The answer to a call, and the reader after it. -/
def perform (c : Cursor) : Lookahead.Call → Lookahead.Answer × Cursor
  | .next => (ask next c).map .token id
  | .peekAt n => (ask (peekAt n) c).map .token id
  | .checkAt n kind => (ask (checkAt n kind) c).map .verdict id
  | .expect kind => (ask (expect kind) c).map .token id

/-- Calls one after the other, whether or not they fail. -/
def run : List Lookahead.Call → Cursor → List Lookahead.Exchange
  | [], _ => []
  | call :: calls, c => ⟨call,(c.perform call).1⟩ :: run calls (c.perform call).2

lemma next_stream (c : Cursor) : (ask next c).map id stream = (c.stream.head, c.stream.tail) := by
  obtain ⟨tokens,faults,last,prevStop,nextId⟩ := c
  cases tokens with
  | cons => rfl
  | nil => cases faults <;> rfl

/-- The reader with one more token before it. -/
def hold (t : Token) (c : Cursor) : Cursor :=
  { c with tokens := t :: c.tokens }

lemma peekAt_hold (n : Nat) (t : Token) (c : Cursor) :
    ask (peekAt (n + 1)) (c.hold t) = (ask (peekAt n) c).map id (hold t) := by
  have hget : (c.hold t).tokens[n + 1]? = c.tokens[n]? := rfl
  unfold ask peekAt
  rw [hget]
  cases c.tokens[n]? with
  | some u => rfl
  | none =>
    obtain ⟨tokens,faults,last,prevStop,nextId⟩ := c
    cases faults <;> rfl

lemma peekAt_stream (n : Nat) (c : Cursor) : (ask (peekAt n) c).map id stream = peekIn n c.stream := by
  obtain ⟨tokens,faults,last,prevStop,nextId⟩ := c
  induction n generalizing tokens with
  | zero =>
    cases tokens with
    | cons => rfl
    | nil => cases faults <;> rfl
  | succ n ih =>
    cases tokens with
    | cons t tokens =>
      change (ask (peekAt (n + 1)) (hold t ⟨tokens,faults,last,prevStop,nextId⟩)).map id stream =
        (peekIn n (stream ⟨tokens,faults,last,prevStop,nextId⟩)).map id (Stream'.cons (.ok t))
      rw [peekAt_hold, ← ih]
      rfl
    | nil =>
      cases faults with
      | nil => exact (peekIn_const (n + 1) last).symm
      | cons x faults => rfl

lemma ask_checkAt (n : Nat) (kind : Kind) (c : Cursor) :
    ask (checkAt n kind) c = (ask (peekAt n) c).map (Except.map fun t => t.kind.sameClass kind) id := by
  change (outcome ((peekAt n c).bind _), after ((peekAt n c).bind _)) = _
  unfold ask
  cases peekAt n c <;> rfl

lemma ask_expect (kind : Kind) (c : Cursor) :
    (ask (expect kind) c).map id stream = (ask next c).map (Except.bind · (Lookahead.demanded kind)) stream := by
  change (outcome ((next c).bind _), stream (after ((next c).bind _))) = _
  unfold ask
  cases next c with
  | error f => rfl
  | ok r =>
    dsimp only [Except.bind]
    unfold Lookahead.demanded
    by_cases h : r.1.kind.sameClass kind = true
    · simp [h, took, outcome, after, stream]
    · simp [h, fail, outcome, after]

lemma perform_stream (c : Cursor) (call : Lookahead.Call) : (c.perform call).map id stream = call.answerIn c.stream := by
  have hnext := c.next_stream
  cases call with
  | next => exact congrArg (Prod.map Lookahead.Answer.token id) hnext
  | peekAt n => exact congrArg (Prod.map Lookahead.Answer.token id) (c.peekAt_stream n)
  | checkAt n kind =>
    have hpeek := congrArg (Prod.map (fun r : Scanned => Lookahead.Answer.verdict (r.map fun t => t.kind.sameClass kind)) id)
      (c.peekAt_stream n)
    rw [perform, ask_checkAt]
    exact hpeek
  | expect kind =>
    have hexpect := congrArg (Prod.map (fun r : Scanned => Lookahead.Answer.token (r.bind (Lookahead.demanded kind))) id) hnext
    exact (congrArg (Prod.map Lookahead.Answer.token id) (ask_expect kind c)).trans hexpect

end Cursor

lemma splitAtErrors_joined (ss : List Scanned) :
    ((splitAtErrors ss).1.map .ok ++ (splitAtErrors ss).2.flatMap fun x => .error x.1 :: x.2.map .ok) = ss := by
  induction ss with
  | nil => rfl
  | cons s ss ih =>
    cases s with
    | ok t => exact congrArg (_ :: ·) ih
    | error e => exact congrArg (_ :: ·) ih

/-- A cursor and a buffer to which the same tokens and errors are left answer all calls alike. -/
theorem Cursor.run_eq {c : Cursor} {l : Lookahead} (h : c.stream = l.stream) (calls : List Lookahead.Call) :
    run calls c = (Lookahead.run calls l).1 := by
  induction calls generalizing c l with
  | nil => rfl
  | cons call calls ih =>
    have hstep : (c.perform call).map id stream = (call.perform l).map id Lookahead.stream := by
      rw [perform_stream, Lookahead.perform_stream, h]
    have hanswer : (c.perform call).1 = (call.perform l).1 := congrArg Prod.fst hstep
    have hstream : (c.perform call).2.stream = (call.perform l).2.stream := congrArg Prod.snd hstep
    rw [run, ih hstream, hanswer]
    rfl

lemma Cursor.stream_ofSource (source : String) : (ofSource source).stream = (Lookahead.ofSource source).stream := by
  have hjoined := splitAtErrors_joined (scan source)
  exact congrArg (fun ss : List Scanned => ss ++ₛ Stream'.const (Except.ok (endOfInput source))) hjoined

end Opal
