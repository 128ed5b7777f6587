/-!
# Spans of source text

A span is a pair of byte offsets into a source text, the second one past the last byte covered.
-/

namespace Opal

/-- A range of byte offsets: `start` is the first byte covered, `stop` the first byte after it. -/
structure Span where
  start : Nat
  stop : Nat
deriving DecidableEq, Repr, Inhabited

namespace Span

/-- The smallest span that covers both `a` and `b`. -/
def cover (a b : Span) : Span :=
  ⟨min a.start b.start,max a.stop b.stop⟩

def display (s : Span) : String :=
  toString s.start ++ ".." ++ toString s.stop

@[simp] theorem cover_start (a b : Span) : (a.cover b).start = min a.start b.start := rfl

@[simp] theorem cover_stop (a b : Span) : (a.cover b).stop = max a.stop b.stop := rfl

end Span

/-- The number of bytes that `cs` takes in UTF-8. -/
def byteLength : List Char → Nat
  | [] => 0
  | c :: cs => c.utf8Size + byteLength cs

@[simp] theorem byteLength_nil : byteLength [] = 0 := rfl

@[simp] theorem byteLength_cons (c : Char) (cs : List Char) : byteLength (c :: cs) = c.utf8Size + byteLength cs := rfl

@[simp] theorem byteLength_append (as bs : List Char) : byteLength (as ++ bs) = byteLength as + byteLength bs := by
  induction as with
  | nil => simp
  | cons c cs ih => simp [ih, Nat.add_assoc]

end Opal
