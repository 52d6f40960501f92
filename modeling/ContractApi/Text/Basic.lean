/-!
# Texts

A `Text` is a list of code points. Documents may hold an unpaired surrogate (the escape `\ud800` names one), which a
`String` cannot, so names, types and messages are texts throughout.

- `Text.ofString` embeds strings, and is a coercion, so that literals can be written as usual.
- `Text.ofNat` and `Text.ofInt` are the decimal numerals.
-/

namespace ContractApi

/-- A Unicode code point, surrogates included. -/
abbrev CodePoint := Fin 0x110000

namespace CodePoint

/-- The code point of a character. -/
def ofChar (c : Char) : CodePoint :=
  ⟨c.toNat, by
    have h := c.valid
    simp only [UInt32.isValidChar, Nat.isValidChar] at h
    change c.val.toNat < _
    omega⟩

instance : Coe Char CodePoint := ⟨ofChar⟩

/-- The code point with a number, which is taken modulo the number of code points. -/
def ofNat (n : Nat) : CodePoint := ⟨n % 0x110000, Nat.mod_lt n (by decide)⟩

/-- The two halves of a surrogate pair have code points of their own, which stand for no character. -/
def isSurrogate (c : CodePoint) : Bool := 0xD800 ≤ c.val && c.val ≤ 0xDFFF

/-- The first half of a surrogate pair. -/
def isHighSurrogate (c : CodePoint) : Bool := 0xD800 ≤ c.val && c.val ≤ 0xDBFF

/-- The second half of a surrogate pair. -/
def isLowSurrogate (c : CodePoint) : Bool := 0xDC00 ≤ c.val && c.val ≤ 0xDFFF

/-- One of the ten ASCII digits. -/
def isDigit (c : CodePoint) : Bool := 0x30 ≤ c.val && c.val ≤ 0x39

/-- The code point of a hexadecimal digit below 16, in lower case. -/
def hexDigit (d : Nat) : CodePoint :=
  if d < 10 then ofNat (0x30 + d) else ofNat (0x57 + d)

end CodePoint

/-- A sequence of code points. -/
abbrev Text := List CodePoint

namespace Text

/-- The code points of a string. -/
def ofString (s : String) : Text := s.toList.map CodePoint.ofChar

instance : Coe String Text := ⟨ofString⟩

/-- The decimal numeral of a natural number. -/
def ofNat (n : Nat) : Text := (Nat.toDigits 10 n).map CodePoint.ofChar

/-- The decimal numeral of an integer, with a minus sign in front of a negative one. -/
def ofInt : Int → Text
  | .ofNat n => ofNat n
  | .negSucc n => CodePoint.ofChar '-' :: ofNat (n + 1)

/-- The texts one after the other, with `separator` between neighbours. -/
def joined (separator : Text) (texts : List Text) : Text := separator.intercalate texts

/-- Whether `part` occurs in the text as a block. -/
def includes (part : Text) : Text → Bool
  | [] => part.isEmpty
  | c :: rest => part.isPrefixOf (c :: rest) || includes part rest

/-- The text with `replacement` in place of every code point that `which` picks. -/
def replaceEach (which : CodePoint → Bool) (replacement : CodePoint) (text : Text) : Text :=
  text.map fun c => if which c then replacement else c

/-- The last `width` digits of a number in base 16, written with small letters. -/
def hex (width n : Nat) : Text :=
  (List.range width).reverse.map fun i => CodePoint.hexDigit (n / Nat.pow 16 i % 16)

/-- The string of the text's characters, in which `U+FFFD` stands for an unpaired surrogate. -/
def asString (text : Text) : String :=
  .ofList (text.map fun c => if c.isSurrogate then '\uFFFD' else Char.ofNat c.val)

end Text

end ContractApi
