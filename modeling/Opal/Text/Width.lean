import Opal.Text.Wide
import Opal.Text.ZeroWidth

/-!
# The width of a character

How many columns of a screen a character takes, wherever it stands.
-/

namespace Opal

/-- The number of columns that a character takes. Two characters of Khmer stand for several letters: the
vowel U+17A4 for two, the sign U+17D8 for three. -/
def glyphWidth (c : Char) : Nat :=
  if c.toNat = 0x17a4 then 2
  else if c.toNat = 0x17d8 then 3
  else if isZeroWidth c then 0
  else if isWide c then 2
  else 1

end Opal
