/-!
# Blank characters

What separates tokens without being one: the characters with the Unicode
property `White_Space`. The property is a closed table of ten ranges, so it is
written out here. The classes of `Char` know ASCII only.
-/

namespace HeapShape.Text

/-- The ranges of code points, both ends included, of the blank characters. -/
def blankRanges : List (Nat × Nat) :=
  [(0x09, 0x0D), (0x20, 0x20), (0x85, 0x85), (0xA0, 0xA0), (0x1680, 0x1680), (0x2000, 0x200A),
    (0x2028, 0x2029), (0x202F, 0x202F), (0x205F, 0x205F), (0x3000, 0x3000)]

/-- Whether a character is blank. -/
def isBlank (c : Char) : Bool :=
  blankRanges.any fun (lo, hi) => lo ≤ c.toNat && c.toNat ≤ hi

end HeapShape.Text
