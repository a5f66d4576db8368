/-! # Characters and blanks

A class of characters is a table of ranges of code points, blanks are the characters of the Unicode
property `White_Space`, and only the letters `A` to `Z` have a case here. -/

namespace SidecarIndex.Text

/-! ### Classes of characters -/

/-- Whether code point `n` lies in a range of the table `ranges`, first and last code point
included. The table is in ascending order, so the search stops at the first range that starts after
the character. -/
def inRanges : List (Nat × Nat) → Nat → Bool
  | [], _ => false
  | (first, last) :: rest, n =>
    if n < first then false
    else if n ≤ last then true
    else inRanges rest n

/-! ### Blanks -/

def isBlank (c : Char) : Bool :=
  let n := c.toNat
  (0x9 ≤ n && n ≤ 0xD) || n == 0x20 || n == 0x85 || n == 0xA0 || n == 0x1680
    || (0x2000 ≤ n && n ≤ 0x200A) || n == 0x2028 || n == 0x2029 || n == 0x202F
    || n == 0x205F || n == 0x3000

def trimRight (s : List Char) : List Char := (s.reverse.dropWhile isBlank).reverse

def trim (s : List Char) : List Char := trimRight (s.dropWhile isBlank)

/-! ### Case -/

def fold (s : List Char) : List Char := s.map Char.toLower

def sameFolded (s t : List Char) : Bool := fold s == fold t

end SidecarIndex.Text
