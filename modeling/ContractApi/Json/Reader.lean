import ContractApi.Value.Basic
import ContractApi.Fault
/-!
# Reading JSON

`Json.readWithin` reads a JSON text if there is room for all levels of its lists and objects. Besides the standard forms,
`NaN`, `Infinity` and `-Infinity` are numbers. Of entries with the same name the last one counts, in the place of the
first.

A `ReadFault` says what was expected and where; its message gives the place as line, column and number of code points
before it.
-/

namespace ContractApi.Json

/-- What is wrong with a JSON text. -/
inductive Problem where
  /-- No value begins here. -/
  | expectingValue
  /-- No name of an entry begins here. -/
  | expectingName
  /-- A name is not followed by a colon. -/
  | expectingColon
  /-- A value is neither followed by a comma nor the last one. -/
  | expectingComma
  /-- A control character stands in a text. -/
  | controlCharacter
  /-- A backslash is followed by a character that has no meaning there. -/
  | invalidEscape
  /-- A code point is not given by four digits in base 16. -/
  | invalidUnicodeEscape
  /-- A text has no end. -/
  | unterminated
  /-- Something follows the value. -/
  | extraData
  /-- The text begins with a byte order mark. -/
  | byteOrderMark
deriving DecidableEq, Repr

/-- The wording of a problem. -/
def Problem.message : Problem → Text
  | expectingValue => "Expecting value"
  | expectingName => "Expecting property name enclosed in double quotes"
  | expectingColon => "Expecting ':' delimiter"
  | expectingComma => "Expecting ',' delimiter"
  | controlCharacter => "Invalid control character at"
  | invalidEscape => "Invalid \\escape"
  | invalidUnicodeEscape => "Invalid \\uXXXX escape"
  | unterminated => "Unterminated string starting at"
  | extraData => "Extra data"
  | byteOrderMark => "Unexpected UTF-8 BOM (decode using utf-8-sig)"

/-- Why a text was not read. -/
inductive ReadFault where
  /-- A problem, and what follows its place. -/
  | problem (problem : Problem) (rest : Text)
  /-- An integer has too many digits. -/
  | tooLong (digits : Nat)
  /-- Lists and objects are nested too deep; the innermost one is of the kind. -/
  | tooDeep (kind : Kind)
deriving DecidableEq, Repr

/-- Whether a code point may stand between the parts of a JSON text. -/
def isSpace (c : CodePoint) : Bool := c = ' ' ∨ c = '\t' ∨ c = '\n' ∨ c = '\r'

/-- The text without white space at its beginning. -/
def skipSpace (text : Text) : Text := text.dropWhile isSpace

/-- The text behind a word at its beginning. -/
def afterWord? (word text : Text) : Option Text :=
  if word.isPrefixOf text then some (text.drop word.length) else none

/-! ## Texts -/

/-- The value of a digit in base 16. -/
def hexValue? (c : CodePoint) : Option Nat :=
  if c.isDigit then some (c.val - 0x30)
  else if 0x61 ≤ c.val ∧ c.val ≤ 0x66 then some (c.val - 0x57)
  else if 0x41 ≤ c.val ∧ c.val ≤ 0x46 then some (c.val - 0x37)
  else none

/-- The number that digits in base 16 denote. -/
def hexNumber? (digits : Text) : Option Nat :=
  digits.foldl (fun n c => do return 16 * (← n) + (← hexValue? c)) (some 0)

/-- What a letter behind a backslash stands for. -/
def unescape? (c : CodePoint) : Option CodePoint :=
  if c = '"' ∨ c = '\\' ∨ c = '/' then some c
  else if c = 'b' then some (CodePoint.ofChar '\x08')
  else if c = 'f' then some (CodePoint.ofChar '\x0c')
  else if c = 'n' then some '\n'
  else if c = 'r' then some '\r'
  else if c = 't' then some '\t'
  else none

/-- The code point of four digits in base 16 behind `\u`, with what follows. Something has to follow, since a text has an
end; `u` is the place of the letter. -/
def readUnit (u : Text) : Except ReadFault (CodePoint × Text) :=
  let digits := (u.drop 1).take 4
  let rest := u.drop 5
  if rest.isEmpty then .error (.problem .invalidUnicodeEscape u)
  else
    match hexNumber? digits with
    | some n => .ok (CodePoint.ofNat n, rest)
    | none => .error (.problem .invalidUnicodeEscape u)

/-- The code point that two halves of a surrogate pair denote. -/
def joinSurrogates (high low : CodePoint) : CodePoint :=
  CodePoint.ofNat (0x10000 + (high.val - 0xD800) * 0x400 + (low.val - 0xDC00))

/-- The place of the letter of a complete escape by `\u` at the beginning of a text. -/
def unitAhead? : Text → Option Text
  | backslash :: u :: rest =>
    if backslash = '\\' ∧ u = 'u' ∧ rest.drop 4 ≠ [] then some (u :: rest) else none
  | _ => none

/-- A code point by `\u`, where `u` is the place of the letter. Two escapes that give the halves of a surrogate pair are
read as one. -/
def readUnicode (u : Text) : Except ReadFault (CodePoint × Text) := do
  let (c, rest) ← readUnit u
  if c.isHighSurrogate then
    match unitAhead? rest with
    | some u' =>
      let (d, rest') ← readUnit u'
      if d.isLowSurrogate then return (joinSurrogates c d, rest') else return (c, rest)
    | none => return (c, rest)
  else return (c, rest)

/-- The rest of a text that began at `opening`, at most `fuel` steps further, onto what was read before, last first. -/
def readTextFrom (opening : Text) : Nat → Text → Text → Except ReadFault (Text × Text)
  | 0, _, _ => .error (.problem .unterminated opening)
  | _ + 1, _, [] => .error (.problem .unterminated opening)
  | fuel + 1, read, c :: rest =>
    if c = '"' then .ok (read.reverse, rest)
    else if c = '\\' then
      match rest with
      | [] => .error (.problem .unterminated opening)
      | e :: rest' =>
        if e = 'u' then do
          let (d, rest'') ← readUnicode rest
          readTextFrom opening fuel (d :: read) rest''
        else
          match unescape? e with
          | some d => readTextFrom opening fuel (d :: read) rest'
          | none => .error (.problem .invalidEscape (c :: rest))
    else if c.val < 0x20 then .error (.problem .controlCharacter (c :: rest))
    else readTextFrom opening fuel (c :: read) rest

/-- The text whose opening quote stands at `opening`, if it takes at most `fuel` steps. -/
def readText (fuel : Nat) (opening : Text) : Except ReadFault (Text × Text) :=
  readTextFrom opening fuel [] (opening.drop 1)

/-! ## Numbers -/

/-- The digits at the beginning of a text, and what follows. -/
def digitsOf (text : Text) : Text × Text := text.span CodePoint.isDigit

/-- The number that ASCII digits denote. -/
def digitsValue (digits : Text) : Nat := Numeral.ofDigits (digits.map (·.val - 0x30))

/-- The digits of a whole number: a zero, or digits that do not begin with one. -/
def readWhole? : Text → Option (Text × Text)
  | c :: rest =>
    if c = '0' then some ([c], rest)
    else if c.isDigit then some (digitsOf (c :: rest))
    else none
  | [] => none

/-- The digits behind a point, if there are any. -/
def readFraction? : Text → Option (Text × Text)
  | c :: rest =>
    match digitsOf rest with
    | ([], _) => none
    | found => if c = '.' then some found else none
  | [] => none

/-- The exponent behind an `e`, if there is one. -/
def readExponent? : Text → Option (Int × Text)
  | e :: rest =>
    if e = 'e' ∨ e = 'E' then
      let (negative, rest) : Bool × Text :=
        match rest with
        | sign :: rest' => if sign = '-' then (true, rest') else if sign = '+' then (false, rest') else (false, rest)
        | [] => (false, [])
      match digitsOf rest with
      | ([], _) => none
      | (digits, rest) =>
        let n : Int := digitsValue digits
        some (if negative then -n else n, rest)
    else none
  | [] => none

/-- A number without its sign. A fraction or an exponent makes it a floating-point number. -/
def readMagnitude (start : Text) (negative : Bool) (text : Text) : Except ReadFault (Value × Text) :=
  match readWhole? text with
  | none => .error (.problem .expectingValue start)
  | some (whole, rest) =>
    let (fraction, rest', hasFraction) : Text × Text × Bool :=
      match readFraction? rest with
      | some (fraction, rest') => (fraction, rest', true)
      | none => ([], rest, false)
    let digits := digitsValue (whole ++ fraction)
    match readExponent? rest' with
    | some (exponent, rest'') => .ok (.float (.ofScaled negative digits (exponent - fraction.length)), rest'')
    | none =>
      if hasFraction then .ok (.float (.ofScaled negative digits (-(fraction.length : Int))), rest')
      else if Numeral.maxDigits < whole.length then .error (.tooLong whole.length)
      else .ok (.int (if negative then -(digits : Int) else digits), rest')

def readNumber : Text → Except ReadFault (Value × Text)
  | c :: rest => if c = '-' then readMagnitude (c :: rest) true rest else readMagnitude (c :: rest) false (c :: rest)
  | [] => .error (.problem .expectingValue [])

/-! ## Values -/

def words : List (Text × Value) :=
  [("null", .null), ("true", .bool true), ("false", .bool false), ("NaN", .float .nan),
    ("Infinity", .float (.infinity false)), ("-Infinity", .float (.infinity true))]

/-- The value of a word at the beginning of a text. -/
def readWord? (text : Text) : Option (Value × Text) :=
  words.findSome? fun (word, v) => (afterWord? word text).map fun rest => (v, rest)

mutual

/-- A value at the beginning of a text, with at most `levels` levels of lists and objects. Every code point takes at most
two units of `fuel`, one for a value and one for its place in a list or an object. -/
def readValue (levels : Nat) : Nat → Text → Except ReadFault (Value × Text)
  | _, [] => .error (.problem .expectingValue [])
  | 0, text => .error (.problem .expectingValue text)
  | fuel + 1, c :: rest =>
    if c = '"' then (readText fuel (c :: rest)).map fun (t, rest') => (.text t, rest')
    else if c = '[' then
      if levels = 0 then .error (.tooDeep .list)
      else
        match skipSpace rest with
        | [] => .error (.problem .expectingValue [])
        | d :: rest' => if d = ']' then .ok (.list [], rest') else readItems (levels - 1) fuel [] (d :: rest')
    else if c = '\x7b' then
      if levels = 0 then .error (.tooDeep .object)
      else
        match skipSpace rest with
        | [] => .error (.problem .expectingName [])
        | d :: rest' => if d = '\x7d' then .ok (.object [], rest') else readEntries (levels - 1) fuel [] (d :: rest')
    else
      match readWord? (c :: rest) with
      | some found => .ok found
      | none => readNumber (c :: rest)

/-- The items of a list from one on, onto those read before, last first. -/
def readItems (levels : Nat) : Nat → List Value → Text → Except ReadFault (Value × Text)
  | 0, _, text => .error (.problem .expectingValue text)
  | fuel + 1, read, text => do
    let (v, rest) ← readValue levels fuel text
    match skipSpace rest with
    | [] => .error (.problem .expectingComma [])
    | d :: rest' =>
      if d = ']' then return (.list (v :: read).reverse, rest')
      else if d = ',' then readItems levels fuel (v :: read) (skipSpace rest')
      else .error (.problem .expectingComma (d :: rest'))

/-- The entries of an object from one on, onto those read before. -/
def readEntries (levels : Nat) : Nat → List (Key × Value) → Text → Except ReadFault (Value × Text)
  | 0, _, text => .error (.problem .expectingName text)
  | fuel + 1, read, text => do
    if text.head? ≠ some (CodePoint.ofChar '"') then .error (.problem .expectingName text)
    else
      let (name, rest) ← readText fuel text
      match skipSpace rest with
      | [] => .error (.problem .expectingColon [])
      | d :: rest' =>
        if d = ':' then
          let (v, rest) ← readValue levels fuel (skipSpace rest')
          let read := Table.insert (.text name) v read
          match skipSpace rest with
          | [] => .error (.problem .expectingComma [])
          | d :: rest' =>
            if d = '\x7d' then return (.object read, rest')
            else if d = ',' then readEntries levels fuel read (skipSpace rest')
            else .error (.problem .expectingComma (d :: rest'))
        else .error (.problem .expectingColon (d :: rest'))

end

/-- The value that a JSON text with at most `levels` levels of lists and objects denotes. -/
def readWithin (levels : Nat) (text : Text) : Except ReadFault Value := do
  if text.head? = some (CodePoint.ofChar '\uFEFF') then .error (.problem .byteOrderMark text)
  else
    let (v, rest) ← readValue levels (2 * text.length + 2) (skipSpace text)
    let rest := skipSpace rest
    if rest.isEmpty then return v else .error (.problem .extraData rest)

/-- The wording of a fault in a text. -/
def ReadFault.message (text : Text) : ReadFault → Text
  | .problem what rest =>
    let before := text.take (text.length - rest.length)
    let line := before.count (CodePoint.ofChar '\n') + 1
    let column := (before.reverse.takeWhile fun c => c ≠ CodePoint.ofChar '\n').length + 1
    what.message ++ ": line " ++ Text.ofNat line ++ " column " ++ Text.ofNat column ++ " (char " ++
      Text.ofNat before.length ++ ")"
  | .tooLong digits => Fault.integerMessage [] (.tooLong digits)
  | .tooDeep kind => Fault.message (.documentTooDeep kind)

end ContractApi.Json
