import ContractApi.Json.Writer
/-!
# Values to be written

Apart from JSON values, constants, bytes and sets can be written: a constant as what it stands for, bytes in base 16, a set
as a list. A complex number has no written form; a fixed text takes its place, with a notice.

- `toJson` writes a value of any of these kinds.
-/

namespace ContractApi.Json

/-- A value to be written. -/
inductive Encodable where
  | value (v : Value)
  | list (items : List Encodable)
  | object (entries : List (Key × Encodable))
  /-- A constant that stands for a value. -/
  | constant (v : Value)
  | bytes (data : List UInt8)
  /-- A set, with its elements in some order. -/
  | set (elements : List Encodable)
  | complex (re im : Binary64)

instance : Inhabited Encodable := ⟨.value .null⟩

/-- A number without a point behind a whole number, and with a sign in any case if asked for. -/
def complexPart (signed : Bool) (x : Binary64) : Text :=
  let text := x.text false "inf" "nan"
  if signed && text.head? ≠ some (CodePoint.ofChar '-') then '+' :: text else text

/-- A complex number as notices show it: the imaginary part alone if the real part is zero and not negative. -/
def complexText (re im : Binary64) : Text :=
  if re.isZero && re ≠ .zero true then complexPart false im ++ "j"
  else "(" ++ complexPart false re ++ complexPart true im ++ "j)"

namespace Encodable

mutual

/-- The JSON value that is written. -/
def toValue : Encodable → Value
  | .value v | .constant v => v
  | .list items => .list (toValues items)
  | .object entries => .object (toEntries entries)
  | .bytes data => .text (data.flatMap fun b => Text.hex 2 b.toNat)
  | .set elements => .list (toValues elements)
  | .complex _ _ => .text "SERIALISATION ERROR"

/-- The JSON values that are written. -/
def toValues : List Encodable → List Value
  | [] => []
  | e :: rest => e.toValue :: toValues rest

/-- The entries that are written. -/
def toEntries : List (Key × Encodable) → List (Key × Value)
  | [] => []
  | (key, e) :: rest => (key, e.toValue) :: toEntries rest

end

mutual

/-- What is told while a value is written. -/
def notices : Encodable → List Notice
  | .list items | .set items => noticesOf items
  | .object entries => noticesOfEntries entries
  | .complex re im => [.notEncodable (complexText re im)]
  | _ => []

/-- What is told while values are written. -/
def noticesOf : List Encodable → List Notice
  | [] => []
  | e :: rest => e.notices ++ noticesOf rest

/-- What is told while entries are written. -/
def noticesOfEntries : List (Key × Encodable) → List Notice
  | [] => []
  | (_, e) :: rest => e.notices ++ noticesOfEntries rest

end

end Encodable

/-- A value as JSON text in the layout that another value asks for. A text alone needs no layout, but a constant that stands
for a text does. -/
def toJson (e : Encodable) (indent : Value) : Outcome Text :=
  match e with
  | .value (.text t) => return writeText t
  | e => do
    let layout ← Outcome.ofFault (layoutOf indent)
    e.notices.forM Outcome.tell
    return write layout e.toValue

end ContractApi.Json
