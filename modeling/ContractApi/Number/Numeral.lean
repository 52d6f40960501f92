import ContractApi.Text.DecimalDigit
/-!
# Integer numerals

`Numeral.read` reads an integer the way settings and options are written: blanks around it, a sign, decimal digits of any
script, and single underscores between digits. A numeral of more than 4300 digits is refused for its length.
-/

namespace ContractApi

namespace Numeral

/-- Why a text is no integer. -/
inductive Refusal where
  /-- The text has some other form. -/
  | malformed
  /-- The numeral has more digits than are read. -/
  | tooLong (digits : Nat)
deriving DecidableEq, Repr

/-- The greatest number of digits that a numeral may have. -/
def maxDigits : Nat := 4300

/-- The values of the digits, which stand alone or with one underscore between neighbours. -/
def digitValues? : Text → Option (List Nat)
  | [] => none
  | [c] => c.digitValue?.map ([·])
  | c :: d :: rest =>
    if d = '_' then do return (← c.digitValue?) :: (← digitValues? rest)
    else do return (← c.digitValue?) :: (← digitValues? (d :: rest))

/-- The number with the given decimal digits, the most significant first. -/
def ofDigits (digits : List Nat) : Nat := digits.foldl (fun n d => 10 * n + d) 0

/-- Whether a character can stand behind the sign of a numeral: a digit or an underscore. -/
def isPart (c : CodePoint) : Bool := c = '_' || c.digitValue?.isSome

/-- Whether the text begins with a minus sign, and what follows its sign if it has one. -/
def splitSign : Text → Bool × Text
  | [] => (false, [])
  | c :: rest => if c = '-' then (true, rest) else if c = '+' then (false, rest) else (false, c :: rest)

/-- The integer that the text denotes. The length of a numeral counts before what follows it, so that a long one is
refused for its length even if it ends in something else than blanks. -/
def read (text : Text) : Except Refusal Int :=
  let (negative, unsigned) := splitSign (text.dropWhile CodePoint.isBlank)
  match digitValues? (unsigned.takeWhile isPart) with
  | none => .error .malformed
  | some values =>
    if maxDigits < values.length then .error (.tooLong values.length)
    else if (unsigned.dropWhile isPart).all CodePoint.isBlank then
      .ok (if negative then -(ofDigits values : Int) else ofDigits values)
    else .error .malformed

end Numeral

end ContractApi
