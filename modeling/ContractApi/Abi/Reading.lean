import ContractApi.Abi.Record
import ContractApi.Abi.Signature
import ContractApi.Abi.Validation
import ContractApi.Outcome
/-!
# Reading an interface

Reading sorts the items of a document into functions, events and errors and fills in every field of their records.
Constructors, fallbacks, receivers and items of unknown type have no counterpart and are skipped.

- `readParameters` reads a parameter list, down to 64 levels.
- `readItem` reads one item, and `readInterface` a whole document. A failure is that of the first item that cannot be
  read.
-/

namespace ContractApi.Abi

/-- The name of a contract that has none. -/
def defaultContractName : Text := "SmartContract"

def requiredEntry (name : Text) (entries : List (Key × Value)) : Except Fault Value :=
  match Value.lookup? name entries with
  | some v => .ok v
  | none => .error (.missingEntry (.text name))

/-- Turns a fault into a failure of the operation. -/
def liftFault {α : Type} (x : Except Fault α) : Except Failure α := x.mapError .fault

/-- Reads a parameter list of at most `levels` levels. -/
def readParametersWithin : Nat → Value → Except Failure (List Parameter)
  | 0, _ => .error .nestedTooDeep
  | levels + 1, parameters => do
    (← liftFault (listed parameters)).mapM fun p => do
      let entries ← liftFault (entriesOf p)
      let type ← liftFault (requiredEntry "type" entries)
      let components ←
        match Value.field "components" entries with
        | .null => pure Parameters.absent
        | members => (readParametersWithin levels members).map Parameters.list
      return .record ((Value.field "name" entries).orElse "") type
        ((Value.field "internalType" entries).orElse type) (.bool (Value.field "indexed" entries).isTruthy) components

def readParameters (parameters : Value) : Except Failure (List Parameter) :=
  readParametersWithin (maxDepth + 1) parameters

/-- The method of the operation that calls a function: `GET` if the function leaves the state alone, by its mutability or
by the older flag, and `POST` otherwise. -/
def httpMethod (item : Value) : Except Fault Text := do
  let entries ← entriesOf item
  let readOnly := ((Mutability.ofValue? (Value.field "stateMutability" entries)).map Mutability.isReadOnly).getD false
  let constant :=
    match Value.field "constant" entries with
    | .bool b => b
    | _ => false
  return if readOnly || constant then "GET" else "POST"

def readFunction (item : Value) (entries : List (Key × Value)) : Except Failure FunctionRecord := do
  let name ← liftFault (requiredEntry "name" entries)
  let inputs ← readParameters (Value.field "inputs" entries)
  let outputs ← readParameters (Value.field "outputs" entries)
  let signature ← liftFault (plainSignature item)
  let selector ← liftFault (selector item)
  let method ← liftFault (httpMethod item)
  return {
    name
    stateMutability := (Value.field "stateMutability" entries).orElse (.text Mutability.nonpayable.word)
    constant := (Value.field "constant" entries).orElse (.bool false)
    payable := (Value.field "payable" entries).orElse (.bool false)
    inputs := .list inputs
    outputs := .list outputs
    signature := .text signature
    selector := .text selector
    httpMethod := .text method }

def readEvent (item : Value) (entries : List (Key × Value)) : Except Failure EventRecord := do
  let name ← liftFault (requiredEntry "name" entries)
  let inputs ← readParameters (Value.field "inputs" entries)
  let signature ← liftFault (plainSignature item)
  let topic ← liftFault (topic item)
  return {
    name
    anonymous := (Value.field "anonymous" entries).orElse (.bool false)
    inputs := .list inputs
    signature := .text signature
    topic := .text topic }

def readError (item : Value) (entries : List (Key × Value)) : Except Failure ErrorRecord := do
  let inputs ← readParameters (Value.field "inputs" entries)
  let signature ← liftFault (plainSignature item)
  let selector ← liftFault (selector item)
  return {
    name := (Value.field "name" entries).orElse ""
    inputs := .list inputs
    signature := .text signature
    selector := .text selector }

inductive ItemRecord where
  | function (f : FunctionRecord)
  | event (e : EventRecord)
  | error (e : ErrorRecord)
  /-- An item without counterpart, of the given type. -/
  | skipped (type : Value)

def readItem (item : Value) (index : Nat) : Except Failure ItemRecord :=
  match item with
  | .object entries =>
    match ItemKind.of item with
    | .function => (readFunction item entries).map .function
    | .event => (readEvent item entries).map .event
    | .error => (readError item entries).map .error
    | _ => .ok (.skipped (Value.field "type" entries))
  | _ => .error (.itemNotObject index)

/-- A fault of a value makes its item unreadable; other failures stay what they are. -/
def inReading : Failure → Failure
  | .fault f => .unreadable f
  | failure => failure

/-- What the record of an item is announced with. -/
def ItemRecord.notices : ItemRecord → List Notice
  | .skipped type => [.itemSkipped type]
  | _ => []

/-- Reads items from an index on. -/
def readItems : Nat → List Value → Outcome (List ItemRecord)
  | _, [] => return []
  | index, item :: rest => do
    let record ← Outcome.mapFailure inReading (.ofExcept (readItem item index))
    record.notices.forM Outcome.tell
    return record :: (← readItems (index + 1) rest)

def ItemRecord.function? : ItemRecord → Option FunctionRecord
  | .function f => some f
  | _ => none

def ItemRecord.event? : ItemRecord → Option EventRecord
  | .event e => some e
  | _ => none

def ItemRecord.error? : ItemRecord → Option ErrorRecord
  | .error e => some e
  | _ => none

def Interface.ofItems (name : Value) (items : List ItemRecord) : Interface where
  contractName := name
  functions := .list ((items.filterMap ItemRecord.function?).map .record)
  events := .list ((items.filterMap ItemRecord.event?).map .record)
  errors := .list ((items.filterMap ItemRecord.error?).map .record)

/-- The name of the contract: the one asked for, or else the one in the document, or else the default. -/
def contractNameOf (document contractName : Value) : Value :=
  let embedded :=
    match document with
    | .object entries => Value.field "contractName" entries
    | _ => .null
  contractName.orElse (embedded.orElse defaultContractName)

def readInterface (document contractName : Value) : Outcome Interface :=
  match itemList? document with
  | none => .fail .noItems
  | some items => do return .ofItems (contractNameOf document contractName) (← readItems 0 items)

end ContractApi.Abi
