import Mathlib.Data.Stream.Init
import Opal.Token.Lookahead

/-!
# Looking ahead loses nothing

Whatever is asked of a token sequence, the tokens taken, buffered and still to be scanned are together those of the text, in
their order. Every lexical error is handed out once.
-/

namespace Opal

open List

variable {ps : List Piece} {start : Nat} {e : SyntaxError} {α : Type}

def tokenOf : Scanned → List Token
  | .ok t => [t]
  | .error _ => []

def faultOf {α : Type} : Except SyntaxError α → List SyntaxError
  | .ok _ => []
  | .error e => [e]

def tokensIn (ss : List Scanned) : List Token :=
  ss.flatMap tokenOf

def faultsIn (ss : List Scanned) : List SyntaxError :=
  ss.flatMap faultOf

lemma mem_faultsIn {ss : List Scanned} : e ∈ faultsIn ss ↔ .error e ∈ ss := by
  have hof (r : Scanned) : e ∈ faultOf r ↔ r = .error e := by
    cases r <;> simp [faultOf, eq_comm]
  simp [faultsIn, mem_flatMap, hof]

lemma faultOf_map {β : Type} (f : α → β) (r : Except SyntaxError α) : faultOf (r.map f) = faultOf r := by
  cases r <;> rfl

lemma Piece.eq_of_scanned?_error {p : Piece} (h : p.scanned? start = some (.error e)) :
    e = ⟨.unexpected (String.ofList p.chars),start,start + byteLength p.chars⟩ := by
  unfold scanned? at h
  split at h <;> cases h
  rfl

lemma Piece.exists_of_mem_scanFrom {s : Scanned} (h : s ∈ scanFrom start ps) :
    ∃ p ∈ ps, ∃ start', p.scanned? start' = some s := by
  induction ps generalizing start with
  | nil => cases h
  | cons p ps ih =>
    obtain h | h := mem_append.1 h
    · exact ⟨p,(.head _),start,Option.mem_toList.1 h⟩
    · obtain ⟨q,hq,hs⟩ := ih h
      exact ⟨q,mem_cons_of_mem p hq,hs⟩

namespace Lookahead

variable {l : Lookahead}

/-! ### Calls -/

inductive Call where
  | next
  | peekAt (offset : Nat)
  | checkAt (offset : Nat) (kind : Kind)
  | expect (kind : Kind)

/-- What a call answers, unless it fails: a token, or whether a token is of some kind. -/
inductive Answer where
  | token (r : Scanned)
  | verdict (r : Except SyntaxError Bool)

structure Exchange where
  call : Call
  answer : Answer

namespace Call

def takes : Call → Bool
  | next | expect _ => true
  | peekAt _ | checkAt _ _ => false

def perform (l : Lookahead) : Call → Answer × Lookahead
  | next => (.token l.next.1, l.next.2)
  | peekAt offset => (.token (l.peekAt offset).1, (l.peekAt offset).2)
  | checkAt offset kind => (.verdict (l.checkAt offset kind).1, (l.checkAt offset kind).2)
  | expect kind => (.token (l.expect kind).1, (l.expect kind).2)

def exchange (l : Lookahead) (call : Call) : Exchange :=
  ⟨call,(call.perform l).1⟩

end Call

/-- Calls one after the other, whether or not they fail: the exchanges, and the sequence that is left. -/
def run : List Call → Lookahead → List Exchange × Lookahead
  | [], l => ([], l)
  | call :: calls, l =>
    let (history, l') := run calls (call.perform l).2
    (call.exchange l :: history, l')

/-- The error that an answer hands out, if it does. -/
def Answer.fault : Answer → List SyntaxError
  | token r => faultOf r
  | verdict r => faultOf r

namespace Exchange

/-- The tokens that a call took, as its answer tells. If the token is not the one that was expected, it is taken as
well, and the error says which one it was. -/
def taken : Exchange → List Token
  | ⟨.next,.token r⟩ => tokenOf r
  | ⟨.expect _,.token (.ok t)⟩ => [t]
  | ⟨.expect _,.token (.error ⟨.expected _ found,span⟩)⟩ => [⟨found,span⟩]
  | _ => []

def faults (x : Exchange) : List SyntaxError :=
  x.answer.fault.filter SyntaxError.isLexical

end Exchange

/-! ### What is left -/

/-- The tokens that are left, with the end of the input again and again after them. -/
def rest (l : Lookahead) : Stream' Token :=
  l.buffer ++ₛ (tokensIn l.pending ++ₛ .const l.last)

def faults (l : Lookahead) : List SyntaxError :=
  faultsIn l.pending

/-- From the first sequence to the second one the tokens `taken` were taken and the errors `faults` were handed out. -/
structure Yields (l : Lookahead) (taken : List Token) (faults : List SyntaxError) (l' : Lookahead) : Prop where
  tokens : taken ++ₛ l'.rest = l.rest
  faults : faults ++ l'.faults = l.faults
  last : l'.last = l.last

namespace Yields

variable {l l' l'' : Lookahead} {ts us : List Token} {es fs : List SyntaxError}

lemma trans (h : l.Yields ts es l') (h' : l'.Yields us fs l'') : l.Yields (ts ++ us) (es ++ fs) l'' where
  tokens := by rw [Stream'.append_append_stream, h'.tokens, h.tokens]
  faults := by rw [append_assoc, h'.faults, h.faults]
  last := h'.last.trans h.last

lemma fault_mem (h : l.Yields ts es l') (he : e ∈ es) : e ∈ l.faults :=
  h.faults ▸ mem_append_left _ he

end Yields

/-! ### The operations -/

lemma yields_next (l : Lookahead) : l.Yields (tokenOf l.next.1) (faultOf l.next.1) l.next.2 := by
  obtain ⟨buffer,pending,last⟩ := l
  cases buffer with
  | cons t ts => exact ⟨rfl,rfl,rfl⟩
  | nil =>
    cases pending with
    | nil => exact ⟨(Stream'.const_eq last).symm,rfl,rfl⟩
    | cons s ss => cases s <;> exact ⟨rfl,rfl,rfl⟩

lemma append_replicate_const (n : Nat) (t : Token) : List.replicate n t ++ₛ .const t = Stream'.const t := by
  induction n with
  | zero => rfl
  | succ n ih => rw [replicate_succ, Stream'.cons_append_stream, ih, ← Stream'.const_eq]

lemma gather_tokens (last : Token) (n : Nat) (pending : List Scanned) :
    (gather last n pending).1 ++ₛ (tokensIn (gather last n pending).2.2 ++ₛ .const last) = tokensIn pending ++ₛ .const last := by
  fun_induction gather last n pending with
  | case1 => rfl
  | case2 n => exact append_replicate_const (n + 1) last
  | case3 => rfl
  | case4 n t rest tokens stop left hgather ih =>
    rw [hgather] at ih
    exact congrArg (Stream'.cons t) ih

lemma gather_faults (last : Token) (n : Nat) (pending : List Scanned) :
    faultOf (gather last n pending).2.1 ++ faultsIn (gather last n pending).2.2 = faultsIn pending := by
  fun_induction gather last n pending with
  | case1 | case2 | case3 => rfl
  | case4 n t rest tokens stop left hgather ih =>
    rw [hgather] at ih
    exact ih

lemma length_gather (last : Token) (n : Nat) (pending : List Scanned)
    (h : (gather last n pending).2.1 = .ok ()) : (gather last n pending).1.length = n := by
  fun_induction gather last n pending with
  | case1 => rfl
  | case2 n => exact length_replicate
  | case3 => cases h
  | case4 n t rest tokens stop left hgather ih =>
    rw [hgather] at ih
    exact congrArg (· + 1) (ih h)

lemma yields_fill (n : Nat) (l : Lookahead) : l.Yields [] (faultOf (fill n l).1) (fill n l).2 where
  tokens := by
    change (l.buffer ++ (gather l.last n l.pending).1) ++ₛ (tokensIn (gather l.last n l.pending).2.2 ++ₛ .const l.last) = l.rest
    rw [Stream'.append_append_stream, gather_tokens, rest]
  faults := gather_faults l.last n l.pending
  last := rfl

lemma peekAt_eq (l : Lookahead) (offset : Nat) :
    l.peekAt offset = ((fill (offset + 1 - l.buffer.length) l).1.map fun _ => l.rest.get offset,
      (fill (offset + 1 - l.buffer.length) l).2) := by
  have hlength := length_gather l.last (offset + 1 - l.buffer.length) l.pending
  have hfill := yields_fill (offset + 1 - l.buffer.length) l
  have hbuffer : (fill (offset + 1 - l.buffer.length) l).2.buffer =
    l.buffer ++ (gather l.last (offset + 1 - l.buffer.length) l.pending).1 := rfl
  have hstop : (fill (offset + 1 - l.buffer.length) l).1 = (gather l.last (offset + 1 - l.buffer.length) l.pending).2.1 := rfl
  unfold peekAt
  -- Nothing else has to be known of what `fill` leaves.
  generalize fill (offset + 1 - l.buffer.length) l = r at *
  obtain ⟨stop,l'⟩ := r
  cases stop with
  | error e => rfl
  | ok =>
    have hlt : offset < l'.buffer.length := by
      rw [hbuffer, length_append, hlength hstop.symm]
      omega
    have hget : l.rest.get offset = l'.buffer[offset] := by
      rw [← hfill.tokens]
      exact Stream'.get_append_left _ _ _ hlt
    simp [hlt, hget, Except.map]

lemma yields_peekAt (l : Lookahead) (offset : Nat) : l.Yields [] (faultOf (l.peekAt offset).1) (l.peekAt offset).2 := by
  rw [peekAt_eq, faultOf_map]
  exact yields_fill _ l

def demanded (kind : Kind) (t : Token) : Scanned :=
  if t.kind.sameClass kind then .ok t else .error ⟨.expected (.kind kind) t.kind,t.span⟩

lemma expect_eq (l : Lookahead) (kind : Kind) : l.expect kind = (l.next.1.bind (demanded kind), l.next.2) := rfl

lemma taken_demanded (kind : Kind) (t : Token) : Exchange.taken ⟨.expect kind,.token (demanded kind t)⟩ = [t] := by
  unfold demanded
  split <;> rfl

lemma faults_demanded (kind : Kind) (t : Token) : Exchange.faults ⟨.expect kind,.token (demanded kind t)⟩ = [] := by
  unfold demanded
  split <;> rfl

lemma taken_of_isLexical (h : e.isLexical) (kind : Kind) : Exchange.taken ⟨.expect kind,.token (.error e)⟩ = [] := by
  obtain ⟨cause,span⟩ := e
  cases cause with
  | unexpected => rfl
  | _ => cases h

/-- Every call takes the tokens and hands out the errors that its answer tells. -/
theorem yields_perform (hl : ∀ e ∈ l.faults, e.isLexical) (call : Call) :
    l.Yields (call.exchange l).taken (call.exchange l).faults (call.perform l).2 := by
  -- What is found in the sequence is lexical.
  have lexical {ts l'} {α : Type} {r : Except SyntaxError α} (h : l.Yields ts (faultOf r) l') :
      (faultOf r).filter SyntaxError.isLexical = faultOf r :=
    filter_eq_self.2 fun e he => hl e (h.fault_mem he)
  cases call with
  | next =>
    have h := yields_next l
    rw [← lexical h] at h
    exact h
  | peekAt offset =>
    have h := yields_peekAt l offset
    rw [← lexical h] at h
    exact h
  | checkAt offset kind =>
    have h := yields_peekAt l offset
    rw [← lexical h, ← faultOf_map fun t => t.kind.sameClass kind] at h
    exact h
  | expect kind =>
    have h := yields_next l
    rw [Call.exchange, Call.perform, expect_eq]
    -- A token that is not of the kind is taken all the same.
    cases hnext : l.next.1 with
    | ok t =>
      rw [hnext] at h
      change l.Yields (Exchange.taken ⟨.expect kind,.token (demanded kind t)⟩)
        (Exchange.faults ⟨.expect kind,.token (demanded kind t)⟩) l.next.2
      rw [taken_demanded, faults_demanded]
      exact h
    | error e =>
      rw [hnext] at h
      have he : e.isLexical := hl e (h.fault_mem (mem_singleton_self e))
      change l.Yields (Exchange.taken ⟨.expect kind,.token (.error e)⟩) ([e].filter SyntaxError.isLexical) l.next.2
      rw [taken_of_isLexical he, filter_cons_of_pos he]
      exact h

lemma yields_run (hl : ∀ e ∈ l.faults, e.isLexical) (calls : List Call) :
    l.Yields ((run calls l).1.flatMap Exchange.taken) ((run calls l).1.flatMap Exchange.faults) (run calls l).2 := by
  induction calls generalizing l with
  | nil => exact ⟨rfl,rfl,rfl⟩
  | cons call calls ih =>
    have h := yields_perform hl call
    exact h.trans (ih fun e he => hl e (h.faults ▸ mem_append_right _ he))

/-! ### Without errors -/

/-- The answer to a call where these tokens are left, and no error. -/
def Call.answerFrom (ts : Stream' Token) : Call → Answer
  | next => .token (.ok ts.head)
  | peekAt offset => .token (.ok (ts.get offset))
  | checkAt offset kind => .verdict (.ok ((ts.get offset).kind.sameClass kind))
  | expect kind => .token (demanded kind ts.head)

lemma exists_ok_of_faultOf {r : Except SyntaxError α} (h : faultOf r = []) : ∃ a, r = .ok a := by
  cases r with
  | ok a => exact ⟨a,rfl⟩
  | error e => cases h

lemma next_of_faultless (h : l.faults = []) : l.next.1 = .ok l.rest.head := by
  have hnext := yields_next l
  obtain ⟨t,ht⟩ := exists_ok_of_faultOf (append_eq_nil_iff.1 (hnext.faults.trans h)).1
  rw [← hnext.tokens, ht]
  rfl

lemma peekAt_of_faultless (h : l.faults = []) (offset : Nat) : (l.peekAt offset).1 = .ok (l.rest.get offset) := by
  have hfill := yields_fill (offset + 1 - l.buffer.length) l
  obtain ⟨_,hstop⟩ := exists_ok_of_faultOf (append_eq_nil_iff.1 (hfill.faults.trans h)).1
  rw [peekAt_eq, hstop]
  rfl

/-- Without errors the answers depend on the tokens that are left alone, wherever they are kept. -/
theorem answer_of_faultless (h : l.faults = []) (call : Call) : (call.perform l).1 = call.answerFrom l.rest := by
  cases call with
  | next => exact congrArg Answer.token (next_of_faultless h)
  | peekAt offset => exact congrArg Answer.token (peekAt_of_faultless h offset)
  | checkAt offset kind =>
    have hpeek := congrArg (Except.map fun t => t.kind.sameClass kind) (peekAt_of_faultless h offset)
    exact congrArg Answer.verdict hpeek
  | expect kind =>
    have hnext := congrArg (Except.bind · (demanded kind)) (next_of_faultless h)
    exact congrArg Answer.token hnext

lemma taken_of_not_takes {x : Exchange} (h : x.call.takes = false) : x.taken = [] := by
  obtain ⟨call,answer⟩ := x
  cases call <;> first | rfl | cases h

/-- Without errors, calls that only look ahead may be left out. -/
theorem filter_run {l1 l2 : Lookahead} (h1 : l1.faults = []) (h2 : l2.faults = []) (hrest : l1.rest = l2.rest)
    (calls : List Call) : (run calls l1).1.filter (fun x => x.call.takes) = (run (calls.filter Call.takes) l2).1 := by
  induction calls generalizing l1 l2 with
  | nil => rfl
  | cons call calls ih =>
    -- The two runs may have buffered different tokens, but what is to come is the same in both.
    have hy1 := yields_perform (l := l1) (by simp [h1]) call
    have hfaults1 := (append_eq_nil_iff.1 (hy1.faults.trans h1)).2
    have hsame : call.exchange l1 = call.exchange l2 := by
      rw [Call.exchange, Call.exchange, answer_of_faultless h1, answer_of_faultless h2, hrest]
    cases htakes : call.takes with
    | false =>
      -- Only the first run makes the call, which leaves what is to come.
      have hrest' : (call.perform l1).2.rest = l2.rest := by
        rw [← hrest, ← hy1.tokens, taken_of_not_takes htakes]
        rfl
      rw [filter_cons_of_neg (by simp [htakes]), ← ih hfaults1 h2 hrest']
      exact filter_cons_of_neg (by simp [htakes, Call.exchange])
    | true =>
      have hy2 := yields_perform (l := l2) (by simp [h2]) call
      have hfaults2 := (append_eq_nil_iff.1 (hy2.faults.trans h2)).2
      have hrest' : (call.perform l1).2.rest = (call.perform l2).2.rest := by
        have htokens := hy1.tokens.trans (hrest.trans hy2.tokens.symm)
        rw [hsame] at htokens
        exact Stream'.append_right_injective _ _ _ htokens
      rw [filter_cons_of_pos htakes]
      change _ = call.exchange l2 :: _
      rw [← ih hfaults1 hfaults2 hrest', ← hsame]
      exact filter_cons_of_pos (by simp [htakes, Call.exchange])

lemma isLexical_of_mem_scanFrom (h : .error e ∈ Piece.scanFrom start ps) : e.isLexical := by
  obtain ⟨p,-,start',hp⟩ := Piece.exists_of_mem_scanFrom h
  rw [Piece.eq_of_scanned?_error hp]
  rfl

/-- At every point the tokens that were taken, the buffered ones and those that are still to be scanned are the tokens of
the source text in their order, with the end of the input again and again after them; and the errors that were handed
out and those that are still to be met are its lexical errors in their order. Without such errors the calls that take
tokens are answered as if nobody had looked ahead. -/
theorem tokens_conserved (source : String) (calls : List Call) :
    let history := (run calls (ofSource source)).1
    let l := (run calls (ofSource source)).2
    (history.flatMap Exchange.taken ++ₛ (l.buffer ++ₛ (tokensIn l.pending ++ₛ .const (endOfInput source))) =
        tokensIn (scan source) ++ₛ .const (endOfInput source)) ∧
      history.flatMap Exchange.faults ++ faultsIn l.pending = faultsIn (scan source) ∧
      (faultsIn (scan source) = [] →
        history.filter (fun x => x.call.takes) = (run (calls.filter Call.takes) (ofSource source)).1) := by
  intro history l
  have hlexical : ∀ e ∈ (ofSource source).faults, e.isLexical :=
    fun e he => isLexical_of_mem_scanFrom (mem_faultsIn.1 he)
  have h := yields_run hlexical calls
  refine ⟨?_,h.faults,fun hclean => ?_⟩
  · have htokens := h.tokens
    rw [rest, h.last] at htokens
    exact htokens
  · have hfaultless : (ofSource source).faults = [] := hclean
    exact filter_run hfaultless hfaultless rfl calls

/-- What is scanned comes out again if nothing is done but to take it, and after it the end of the input. -/
theorem answers_next (pending : List Scanned) (last : Token) (n : Nat) :
    (run (List.replicate (pending.length + n) .next) ⟨[],pending,last⟩).1.map Exchange.answer =
      (pending ++ List.replicate n (Except.ok last)).map Answer.token := by
  induction pending with
  | nil =>
    induction n with
    | zero => rfl
    | succ n ih => exact congrArg (_ :: ·) ih
  | cons s ss ih =>
    rw [length_cons, Nat.add_right_comm, replicate_succ]
    exact congrArg (_ :: ·) ih

end Lookahead

end Opal
