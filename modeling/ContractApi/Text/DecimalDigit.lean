import ContractApi.Text.Basic
import ContractApi.Text.Ranges
/-!
# Decimal digits and blanks

Every script with decimal digits has ten of them in a row, so a table of zeros is enough. Blanks are the code points
with the property White_Space. Both tables are those of version 14 of the Unicode character database.
-/

namespace ContractApi.Text

/-- The digit zero of every script with decimal digits. -/
def decimalZeros : List Nat :=
  [48, 1632, 1776, 1984, 2406, 2534, 2662, 2790, 2918, 3046, 3174, 3302, 3430, 3558, 3664, 3792, 3872, 4160, 4240,
   6112, 6160, 6470, 6608, 6784, 6800, 6992, 7088, 7232, 7248, 42528, 43216, 43264, 43472, 43504, 43600, 44016,
   65296, 66720, 68912, 69734, 69872, 69942, 70096, 70384, 70736, 70864, 71248, 71360, 71472, 71904, 72016, 72784,
   73040, 73120, 92768, 92864, 93008, 120782, 120792, 120802, 120812, 120822, 123200, 123632, 125264, 130032]

/-- The code points that count as blank, as ascending ranges. -/
def blankRanges : List (Nat × Nat) :=
  [(9, 13), (32, 32), (133, 133), (160, 160), (5760, 5760), (8192, 8202), (8232, 8233), (8239, 8239), (8287, 8287),
   (12288, 12288)]

end ContractApi.Text

namespace ContractApi.CodePoint

/-- The value of a decimal digit of any script. -/
def digitValue? (c : CodePoint) : Option Nat :=
  (Text.decimalZeros.find? fun first => first ≤ c.val && c.val < first + 10).map (c.val - ·)

/-- Whether the code point is white space. -/
def isBlank (c : CodePoint) : Bool := Text.inRanges Text.blankRanges c.val

end ContractApi.CodePoint
