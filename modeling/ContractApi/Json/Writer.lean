import ContractApi.Value.Basic
import ContractApi.Outcome
/-!
# JSON text

- `Json.write` writes a value. In the layout of one line, items are set apart by `, ` and keys by `: `; in the others every
  item stands on a line of its own, behind as many indentations as the item is deep.
- `layoutOf` is the layout that a value asks for.
- Only ASCII is written. Other code points are escaped by `\u` with four digits, as a surrogate pair above `U+FFFF`.
- A key that is no text is written as the text of its JSON form.
-/

namespace ContractApi.Json

/-- The letter behind the backslash for the code points that have one. -/
def escapeLetter? (c : CodePoint) : Option Char :=
  if c = '"' then some '"'
  else if c = '\\' then some '\\'
  else if c = '\n' then some 'n'
  else if c = '\r' then some 'r'
  else if c = '\t' then some 't'
  else if c.val = 0x0C then some 'f'
  else if c.val = 0x08 then some 'b'
  else none

/-- Sixteen bits behind `\u`. -/
def unitEscape (n : Nat) : Text := "\\u" ++ Text.hex 4 n

/-- A code point as it stands within quotes. -/
def writePoint (c : CodePoint) : Text :=
  match escapeLetter? c with
  | some letter => ['\\', letter]
  | none =>
    if 0x20 ≤ c.val ∧ c.val < 0x7F then [c]
    else if c.val < 0x10000 then unitEscape c.val
    else unitEscape (0xD800 + (c.val - 0x10000) / 0x400) ++ unitEscape (0xDC00 + (c.val - 0x10000) % 0x400)

/-- A text between quotes. -/
def writeText (text : Text) : Text := "\"" ++ text.flatMap writePoint ++ "\""

/-- A truth value. -/
def writeBool (b : Bool) : Text := if b then "true" else "false"

/-- A floating-point number. -/
def writeFloat (x : Binary64) : Text := x.text true "Infinity" "NaN"

/-- A key between quotes. -/
def writeKey : Key → Text
  | .bool b => writeText (writeBool b)
  | .int n => writeText (Text.ofInt n)
  | .float x => writeText (writeFloat x)
  | .text t => writeText t

/-- How items are laid out. -/
inductive Layout where
  /-- Everything stands on one line. -/
  | oneLine
  /-- Every item stands on a line of its own, indented by so many spaces for each level. -/
  | spaces (count : Nat)
  /-- Every item stands on a line of its own, behind a text for each level. -/
  | text (unit : Text)
deriving DecidableEq, Repr

/-- What begins a line at a depth, if there are lines. -/
def lineBreak (depth : Nat) : Layout → Text
  | .oneLine => []
  | .spaces count => '\n' :: List.replicate (depth * count) ' '
  | .text unit => '\n' :: (List.replicate depth unit).flatten

/-- What stands between two items at a depth. -/
def itemSeparator (depth : Nat) : Layout → Text
  | .oneLine => ", "
  | layout => ',' :: lineBreak depth layout

/-- Items between brackets at a depth; without items there is nothing between the brackets. -/
def bracketed (opening closing : CodePoint) (layout : Layout) (depth : Nat) (items : List Text) : Text :=
  if items.isEmpty then [opening, closing]
  else
    opening :: lineBreak (depth + 1) layout ++ Text.joined (itemSeparator (depth + 1) layout) items ++
      lineBreak depth layout ++ [closing]

mutual

def writeAt (layout : Layout) (depth : Nat) : Value → Text
  | .null => "null"
  | .bool b => writeBool b
  | .int n => Text.ofInt n
  | .float x => writeFloat x
  | .text t => writeText t
  | .list items => bracketed '[' ']' layout depth (writeItems layout (depth + 1) items)
  | .object entries => bracketed '\x7b' '\x7d' layout depth (writeEntries layout (depth + 1) entries)

def writeItems (layout : Layout) (depth : Nat) : List Value → List Text
  | [] => []
  | v :: rest => writeAt layout depth v :: writeItems layout depth rest

/-- The entries of an object at a depth. -/
def writeEntries (layout : Layout) (depth : Nat) : List (Key × Value) → List Text
  | [] => []
  | (key, v) :: rest => (writeKey key ++ ": " ++ writeAt layout depth v) :: writeEntries layout depth rest

end

/-- A value as JSON text. -/
def write (layout : Layout) (v : Value) : Text := writeAt layout 0 v

/-- The layout with so many spaces for each level, without any for a negative number. -/
def layoutOfInt (n : Int) : Except Fault Layout :=
  if n < -0x8000000000000000 ∨ 0x8000000000000000 ≤ n then .error .indentTooLarge
  else .ok (.spaces n.toNat)

/-- The layout that a value asks for: one line for null, and else lines indented by that many spaces or by that text. -/
def layoutOf : Value → Except Fault Layout
  | .null => .ok .oneLine
  | .bool b => .ok (.spaces (if b then 1 else 0))
  | .int n => layoutOfInt n
  | .text t => .ok (.text t)
  | v => .error (.notIndent v.kind)

end ContractApi.Json
