import ContractApi.Schema.Basic
import ContractApi.Schema.Member
import ContractApi.Abi.Validation
import ContractApi.Outcome
/-!
# The schema of a type

- A tuple becomes an object with a required field for every member, an array of any length an array, and integers and
  byte sequences become texts with a pattern. A type that is not known becomes a text.
- A type that lies more than 64 levels deep is given up on, with a notice.
- One line feed at the end of a type is passed over in arrays, integers and byte sequences.
-/

namespace ContractApi.Schema

open ContractApi.Abi

/-- The text without a line feed at its end. -/
def dropFinalLineFeed (text : Text) : Text :=
  if text.getLast? = some (CodePoint.ofChar '\n') then text.dropLast else text

/-- The type of an array's items: what stands before a pair of brackets at the end, which may hold ASCII digits. It may
not hold a line feed. -/
def itemType? (type : Text) : Option Text :=
  match (dropFinalLineFeed type).reverse with
  | close :: inner =>
    match inner.dropWhile CodePoint.isDigit with
    | opening :: base =>
      if close = ']' ∧ opening = '[' ∧ !base.contains (CodePoint.ofChar '\n') then some base.reverse else none
    | [] => none
  | [] => none

/-- Whether the type is the word followed by ASCII digits only. -/
def isSized (word type : Text) : Bool :=
  let type := dropFinalLineFeed type
  word.isPrefixOf type && (type.drop word.length).all CodePoint.isDigit

/-- The schema of a type that is neither a tuple nor an array. -/
def ofElementary (type : Text) : Schema :=
  if isSized "int" type || isSized "uint" type then .integer type
  else if type = "bool" then .boolean
  else if type = "address" then .address
  else if type = "string" then .string
  else if isSized "bytes" type then .bytes type
  else .unknown (.text type)

/-- The schema of a type with its members, when `levels` levels are left. -/
def ofTypeWithin : Nat → Value → Members → Outcome Schema
  | 0, .text type, _ => do
    Outcome.tell (.typeTooDeep type)
    return .unknown (.text type)
  | levels + 1, .text type, members =>
    if type = "tuple" then
      if members.isPresent then do
        let elements ← Outcome.ofFault members.elements
        let names ← Outcome.ofFault (uniqueNames "item" elements)
        let schemas ← elements.mapM fun m => ofTypeWithin levels m.type m.components
        return .tuple (names.zip schemas)
      else return .unknown (.text type)
    else
      match itemType? type with
      | some base => do return .array (← ofTypeWithin levels (.text base) members)
      | none => return ofElementary type
  | _, type, _ => return .unknown type

def ofType (type : Value) (members : Members) : Outcome Schema := ofTypeWithin (maxDepth + 1) type members

end ContractApi.Schema
