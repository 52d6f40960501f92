import ContractApi.Value.Display
import ContractApi.Number.Numeral
/-!
# What can be wrong

- `Fault` says in which way a value is not what a rule needs.
- `Failure` says which activity a fault stopped: reading the items of an interface, or building a document from them.
- `message` is the wording of either, and `Fault.report` the wording inside another message, which names the class of
  the fault.
-/

namespace ContractApi

/-- In which way a value is not what a rule needs. -/
inductive Fault where
  /-- An object has no entry under the key. -/
  | missingEntry (key : Key)
  /-- A value of the kind has no such property. -/
  | noProperty (kind : Kind) (property : Text)
  /-- A value of the kind does not consist of elements. -/
  | notIterable (kind : Kind)
  /-- A value of the kind contains nothing that could be looked for. -/
  | notContainer (kind : Kind)
  /-- A value of the kind has no length. -/
  | noLength (kind : Kind)
  /-- A value of the kind has no first element. -/
  | notSubscriptable (kind : Kind)
  /-- An object has no part that reaches from one position to another. -/
  | noSlice
  /-- A value of the kind cannot be looked up. -/
  | unhashable (kind : Kind)
  /-- A text was to be joined from parts, and the part at the position is of another kind. -/
  | notText (position : Nat) (kind : Kind)
  /-- The text has unpaired surrogates from `start` up to `stop`, so it has no encoded form. -/
  | unencodable (text : Text) (start stop : Nat)
  /-- An indentation is neither a number nor a text. -/
  | notIndent (kind : Kind)
  /-- An indentation, whichever way it goes, is beyond what 64 bits hold. -/
  | indentTooLarge
  /-- The lists and objects of a document are nested too deep; the innermost one is of the kind. -/
  | documentTooDeep (kind : Kind)
  /-- The text is no integer. -/
  | notInteger (text : Text) (why : Numeral.Refusal)
deriving DecidableEq, Repr

namespace Fault

/-- The wording for a text that is no integer. -/
def integerMessage (text : Text) : Numeral.Refusal → Text
  | .malformed => "invalid literal for int() with base 10: " ++ text.quoted.take 200
  | .tooLong n =>
    "Exceeds the limit (4300 digits) for integer string conversion: value has " ++ Text.ofNat n ++
      " digits; use sys.set_int_max_str_digits() to increase the limit"

/-- The word for a list or an object in a document. -/
def documentWord : Kind → Text
  | .object => "object"
  | _ => "array"

/-- The wording of a fault. -/
def message : Fault → Text
  | missingEntry key => key.quoted
  | noProperty kind property => "'" ++ kind.word ++ "' object has no attribute '" ++ property ++ "'"
  | notIterable kind => "'" ++ kind.word ++ "' object is not iterable"
  | notContainer kind => "argument of type '" ++ kind.word ++ "' is not iterable"
  | noLength kind => "object of type '" ++ kind.word ++ "' has no len()"
  | notSubscriptable kind => "'" ++ kind.word ++ "' object is not subscriptable"
  | noSlice => "unhashable type: 'slice'"
  | unhashable kind => "unhashable type: '" ++ kind.word ++ "'"
  | notText position kind =>
    "sequence item " ++ Text.ofNat position ++ ": expected str instance, " ++ kind.word ++ " found"
  | unencodable text start stop =>
    if stop = start + 1 then
      "'utf-8' codec can't encode character '" ++ ((text.drop start).take 1).flatMap CodePoint.numericEscape ++
        "' in position " ++ Text.ofNat start ++ ": surrogates not allowed"
    else
      "'utf-8' codec can't encode characters in position " ++ Text.ofNat start ++ "-" ++ Text.ofNat (stop - 1) ++
        ": surrogates not allowed"
  | notIndent kind => "can't multiply sequence by non-int of type '" ++ kind.word ++ "'"
  | indentTooLarge => "cannot fit 'int' into an index-sized integer"
  | documentTooDeep kind =>
    "maximum recursion depth exceeded while decoding a JSON " ++ documentWord kind ++ " from a unicode string"
  | notInteger text why => integerMessage text why

def className : Fault → Text
  | missingEntry _ => "KeyError"
  | noProperty .. => "AttributeError"
  | unencodable .. => "UnicodeEncodeError"
  | indentTooLarge => "OverflowError"
  | documentTooDeep _ => "RecursionError"
  | notInteger .. => "ValueError"
  | _ => "TypeError"

/-- A fault inside another message: its class, and in parentheses its wording or what it consists of. -/
def report (fault : Fault) : Text :=
  let content : Text :=
    match fault with
    | missingEntry key => key.quoted
    | unencodable text start stop =>
      "'utf-8', " ++ text.quoted ++ ", " ++ Text.ofNat start ++ ", " ++ Text.ofNat stop ++ ", 'surrogates not allowed'"
    | _ => fault.message.quoted
  fault.className ++ "(" ++ content ++ ")"

end Fault

/-- Why no result was reached. -/
inductive Failure where
  /-- A value is not what the operation needs. -/
  | fault (fault : Fault)
  /-- There is no item list to read. -/
  | noItems
  /-- The item at the index is no object. -/
  | itemNotObject (index : Nat)
  /-- Parameters are nested deeper than is supported. -/
  | nestedTooDeep
  /-- An item cannot be read. -/
  | unreadable (fault : Fault)
  /-- The document was rejected, with a summary and the problems found. -/
  | rejected (summary : Text) (problems : List Text)
  /-- Names collide, and collisions are not tolerated. -/
  | collisions (names : List Text)
  /-- The records do not yield a document. -/
  | unassemblable (fault : Fault)
  /-- What was built is no description of an interface. -/
  | invalidDocument
  /-- No document could be produced, with a summary and the causes. -/
  | unprocessed (summary : Text) (causes : List Text)
deriving DecidableEq, Repr

/-- The activities in which something can fail. -/
inductive Failure.Stage where
  /-- A single operation on a value. -/
  | operation
  /-- Reading an interface. -/
  | reading
  /-- Building a document. -/
  | assembling
deriving DecidableEq, Repr

namespace Failure

/-- The problem of a document without an item list. -/
def shapeProblem : Text := "ABI must be an array or an object with an abi array property"

/-- The wording of a failure. -/
def message : Failure → Text
  | fault f => f.message
  | noItems => "Failed to parse ABI: " ++ shapeProblem
  | itemNotObject index => "Failed to parse ABI: item at index " ++ Text.ofNat index ++ " is not an object"
  | nestedTooDeep => "Parameter nesting exceeds the supported depth"
  | unreadable f => "Failed to parse ABI: " ++ f.report
  | rejected summary problems => summary ++ ": " ++ Text.joined "; " problems
  | collisions names => "Name collisions in strict mode: " ++ Text.joined ", " names
  | unassemblable f => "Failed to assemble OpenAPI document: " ++ f.report
  | invalidDocument => "Generated OpenAPI spec is invalid"
  | unprocessed summary causes => summary ++ ": " ++ Text.joined "; " causes

/-- The activity that failed. -/
def stage : Failure → Stage
  | fault _ => .operation
  | noItems | itemNotObject _ | nestedTooDeep | unreadable _ | rejected .. => .reading
  | collisions _ | unassemblable _ | invalidDocument | unprocessed .. => .assembling

end Failure

end ContractApi
