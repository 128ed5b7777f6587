import Opal.Text.CodeRange

/-!
# Wide characters

The characters that take two columns on a screen: the ideographs and syllables of East Asian scripts,
their full-width forms, and emoji. They are those of Unicode 15.1 whose `East_Asian_Width` is wide or
full-width.
-/

namespace Opal

def wideRanges : List CodeRange :=
  CodeRange.ofLengths 0
    [4352,96,4538,2,13,2,190,4,3,1,2,1,521,2,21,2,50,12,43,1,19,1,13,1,8,2,17,2,5,2,8,1,5,1,21,1,7,2,1,1,4,1,2,1,7,1,
    4,2,28,1,35,1,1,1,4,3,1,1,61,3,24,1,14,1,859,2,51,1,4,1,810,26,1,89,12,214,26,79,2,86,2,103,5,43,1,94,1,84,11,
    48,1,40,8,7024,64,22157,3,55,1177,29,643,11172,8540,512,784,10,22,35,1,19,1,4,149,96,127,7,28665,5,11,2,14,6136,
    8,1238,42,9,8935,4,1,7,1,2,1,291,15,1,29,3,2,1,14,4,8,396,15624,1,202,1,190,1,2,10,101,3,13,44,4,9,7,2,14,6,154,
    33,12,9,1,70,1,22,12,43,4,5,12,17,3,1,3,71,1,1,1,187,2,63,13,4,1,24,18,1,26,2,13,1,86,85,48,70,6,1,3,3,2,3,4,4,
    11,2,7,9,227,12,4,1,283,47,1,10,1,185,112,13,3,9,7,46,1,7,8,14,4,9,7,9,1287,65534,2,65534]

/-- Whether a character takes two columns. -/
def isWide (c : Char) : Bool :=
  CodeRange.inSorted wideRanges c.toNat

end Opal
