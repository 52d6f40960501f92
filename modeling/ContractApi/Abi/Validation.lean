import ContractApi.Abi.Item
import ContractApi.Fault
/-!
# Validation

A document is checked before it is read. Every item is looked at and every problem is listed, in the order of the items.

- `itemList?` finds the items of a document: a bare list, or the list under `abi`.
- `validParameters` checks a parameter list and the members of its tuples and arrays, down to 64 levels.
- `validate` is the check of a whole document, and `Problem.message` words what it finds.
-/

namespace ContractApi.Abi

/-- The number of levels below the outermost to which parameters may be nested. -/
def maxDepth : Nat := 64

/-- The items of a document. -/
def itemList? : Value → Option (List Value)
  | .list items => some items
  | .object entries =>
    match Value.field "abi" entries with
    | .list items => some items
    | _ => none
  | _ => none

/-- Whether members listed with a parameter of this type belong to it. -/
def hasMembers (type : Text) : Bool := type = "tuple" || type.getLast? = some (CodePoint.ofChar ']')

/-- Whether a value is a well-formed parameter list with at most `levels` levels. A list may be missing. Each parameter is
an object with a type that is a text and not empty; the members of tuples and arrays are checked where there are any. -/
def validParametersWithin : Nat → Value → Bool
  | _, .null => true
  | 0, _ => false
  | levels + 1, .list parameters => parameters.all fun
    | .object entries =>
      match Value.field "type" entries with
      | .text type =>
        !type.isEmpty &&
          (if hasMembers type then
            match Value.lookup? "components" entries with
            | some components => validParametersWithin levels components
            | none => true
          else true)
      | _ => false
    | _ => false
  | _ + 1, _ => false

/-- Whether a value is a well-formed parameter list. -/
def validParameters (parameters : Value) : Bool := validParametersWithin (maxDepth + 1) parameters

/-- How a message names an item: by its name, or by its index if it has none. -/
inductive ItemLabel where
  | named (name : Value)
  | atIndex (index : Nat)

/-- What validation can find wrong with an item. -/
inductive Problem where
  | notObject (index : Nat)
  | noType (index : Nat)
  | unknownType (index : Nat) (type : Value)
  | functionName (index : Nat)
  | functionInputs (label : ItemLabel)
  | functionOutputs (label : ItemLabel)
  | functionMutability (label : ItemLabel) (mutability : Value)
  | eventName (index : Nat)
  | eventInputs (label : ItemLabel)
  | eventAnonymous (label : ItemLabel)
  | constructorInputs (index : Nat)
  | errorInputs (index : Nat)

/-- The label as it stands in a message. -/
def ItemLabel.text : ItemLabel → Text
  | named name => name.display
  | atIndex index => Text.ofNat index

/-- The wording of a problem. -/
def Problem.message : Problem → Text
  | notObject i => "ABI item at index " ++ Text.ofNat i ++ " must be an object"
  | noType i => "ABI item at index " ++ Text.ofNat i ++ " is missing 'type' property"
  | unknownType i type => "ABI item at index " ++ Text.ofNat i ++ " has unknown type: " ++ type.display
  | functionName i => "Function at index " ++ Text.ofNat i ++ " is missing 'name' property"
  | functionInputs label => "Function '" ++ label.text ++ "' has invalid 'inputs' property"
  | functionOutputs label => "Function '" ++ label.text ++ "' has invalid 'outputs' property"
  | functionMutability label m => "Function '" ++ label.text ++ "' has invalid 'stateMutability': " ++ m.display
  | eventName i => "Event at index " ++ Text.ofNat i ++ " is missing 'name' property"
  | eventInputs label => "Event '" ++ label.text ++ "' has invalid 'inputs' property"
  | eventAnonymous label => "Event '" ++ label.text ++ "' has invalid 'anonymous' property: should be a boolean"
  | constructorInputs i => "ABI constructor at index " ++ Text.ofNat i ++ " has invalid 'inputs' property"
  | errorInputs i => "ABI error at index " ++ Text.ofNat i ++ " has invalid 'inputs' property"

/-- The problem, if the condition holds that it names. -/
def problemIf (condition : Bool) (problem : Problem) : List Problem := if condition then [problem] else []

def ItemLabel.of (entries : List (Key × Value)) (index : Nat) : ItemLabel :=
  let name := Value.field "name" entries
  if name.isTruthy then .named name else .atIndex index

/-- Whether the entries give a parameter list under the name, or none at all. -/
def parametersValidAt (name : Text) (entries : List (Key × Value)) : Bool := validParameters (Value.field name entries)

def functionProblems (entries : List (Key × Value)) (index : Nat) : List Problem :=
  let label := ItemLabel.of entries index
  let mutability := Value.field "stateMutability" entries
  problemIf (!(Value.field "name" entries).isTruthy) (.functionName index) ++
    problemIf (!parametersValidAt "inputs" entries) (.functionInputs label) ++
    problemIf (!parametersValidAt "outputs" entries) (.functionOutputs label) ++
    problemIf (mutability.isTruthy && (Mutability.ofValue? mutability).isNone) (.functionMutability label mutability)

/-- Whether the value under `anonymous`, if there is one, is a truth value. -/
def anonymousValid (entries : List (Key × Value)) : Bool :=
  match Value.lookup? "anonymous" entries with
  | none | some (.bool _) => true
  | some _ => false

def eventProblems (entries : List (Key × Value)) (index : Nat) : List Problem :=
  let label := ItemLabel.of entries index
  problemIf (!(Value.field "name" entries).isTruthy) (.eventName index) ++
    problemIf (!parametersValidAt "inputs" entries) (.eventInputs label) ++
    problemIf (!anonymousValid entries) (.eventAnonymous label)

def itemProblems (item : Value) (index : Nat) : List Problem :=
  match item with
  | .object entries =>
    let type := Value.field "type" entries
    if type.isTruthy then
      match ItemKind.of item with
      | .function => functionProblems entries index
      | .event => eventProblems entries index
      | .constructor => problemIf (!parametersValidAt "inputs" entries) (.constructorInputs index)
      | .error => problemIf (!parametersValidAt "inputs" entries) (.errorInputs index)
      | .fallback | .receive => []
      | .unknown => [.unknownType index type]
    else [.noType index]
  | _ => [.notObject index]

/-- The result of validating a document. -/
inductive Validation where
  | noItemList
  | noItems
  | checked (problems : List Problem)

/-- Checks a document. -/
def validate (document : Value) : Validation :=
  match itemList? document with
  | none => .noItemList
  | some [] => .noItems
  | some items => .checked (items.zipIdx.flatMap fun (item, index) => itemProblems item index)

namespace Validation

/-- The messages of a validation. -/
def errors : Validation → List Text
  | noItemList => [Failure.shapeProblem]
  | noItems => ["ABI array is empty"]
  | checked problems => problems.map Problem.message

/-- Whether nothing was found. -/
def isValid (v : Validation) : Bool := v.errors.isEmpty

end Validation

end ContractApi.Abi
