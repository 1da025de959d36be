/-!
White space in the sense of Unicode, and a text without the white space at its two ends.
-/

namespace MacroPlugin

namespace Blank

/-- The 25 code points with the property White_Space, as ranges with both ends included. -/
def ranges : List (Nat × Nat) :=
  [(0x09, 0x0D), (0x20, 0x20), (0x85, 0x85), (0xA0, 0xA0), (0x1680, 0x1680), (0x2000, 0x200A),
    (0x2028, 0x2029), (0x202F, 0x202F), (0x205F, 0x205F), (0x3000, 0x3000)]

def isBlank (c : Char) : Bool :=
  ranges.any fun (first, last) => first ≤ c.toNat && c.toNat ≤ last

end Blank

/-- Drops the characters that satisfy `p` from both ends. -/
def trimMatches (p : Char → Bool) (text : List Char) : List Char :=
  ((text.dropWhile p).reverse.dropWhile p).reverse

/-- Drops white space from both ends. -/
def trimBlank (text : List Char) : List Char :=
  trimMatches Blank.isBlank text

end MacroPlugin
