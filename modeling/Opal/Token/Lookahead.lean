import Opal.Token.Scan

/-!
# Lookahead

A token sequence that is read from the front and can be looked at any distance ahead. Looking ahead
moves scanned tokens into a buffer and takes none away. An error met on the way is handed out once:
it leaves the sequence, and the tokens buffered before it stay.
-/

namespace Opal

/-- A token sequence with lookahead. -/
structure Lookahead where
  /-- Tokens that were looked at and not yet taken. -/
  buffer : List Token
  /-- What comes after the buffered tokens. -/
  pending : List Scanned
  /-- The token that is found, again and again, when nothing is left. -/
  last : Token

namespace Lookahead

/-- The token sequence of a source text. -/
def ofSource (source : String) : Lookahead :=
  ⟨[],scan source,endOfInput source⟩

/-- Takes what comes after the buffered tokens. -/
def pull (l : Lookahead) : Scanned × Lookahead :=
  match l.pending with
  | [] => (.ok l.last, l)
  | s :: rest => (s, { l with pending := rest })

def next (l : Lookahead) : Scanned × Lookahead :=
  match l.buffer with
  | [] => l.pull
  | t :: rest => (.ok t, { l with buffer := rest })

/-- Takes `n` tokens from the front of a sequence after which `last` is found again and again. Stops
after the first error. Gives the tokens, whether an error stopped it, and what is left. -/
def gather (last : Token) : Nat → List Scanned → List Token × Except SyntaxError Unit × List Scanned
  | 0, pending => ([], .ok (), pending)
  | n + 1, [] => (List.replicate (n + 1) last, .ok (), [])
  | _ + 1, .error e :: rest => ([], .error e, rest)
  | n + 1, .ok t :: rest =>
    let (tokens, stop, left) := gather last n rest
    (t :: tokens, stop, left)

def fill (n : Nat) (l : Lookahead) : Except SyntaxError Unit × Lookahead :=
  let (tokens, stop, left) := gather l.last n l.pending
  (stop, { l with buffer := l.buffer ++ tokens, pending := left })

/-- The token `offset` places ahead, which stays in the sequence. -/
def peekAt (l : Lookahead) (offset : Nat) : Scanned × Lookahead :=
  match fill (offset + 1 - l.buffer.length) l with
  | (.error e, l') => (.error e, l')
  | (.ok (), l') => (.ok (l'.buffer[offset]?.getD l'.last), l')

def checkAt (l : Lookahead) (offset : Nat) (kind : Kind) : Except SyntaxError Bool × Lookahead :=
  let (t, l') := l.peekAt offset
  (t.map fun t => t.kind.sameClass kind, l')

/-- Takes the next token and requires it to be in the class of `kind`; the token is gone either way. -/
def expect (l : Lookahead) (kind : Kind) : Scanned × Lookahead :=
  let (t, l') := l.next
  (t.bind fun t =>
    if t.kind.sameClass kind then .ok t else .error ⟨.expected (.kind kind) t.kind,t.span⟩, l')

end Lookahead

end Opal
