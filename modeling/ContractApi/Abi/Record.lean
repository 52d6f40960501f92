import ContractApi.Value.Basic
/-!
# Records

The form of an interface after reading: parameters, functions, events and errors with all their fields present.

Records also arrive from outside, where anything may stand in the place of a record or of a list of them; such a value is
kept as a stray, and a rule that comes upon it says what it misses. Reading an interface leaves no strays.
-/

namespace ContractApi.Abi

mutual

inductive Parameter where
  /-- A parameter with its name, its type, the type within its source, whether it is indexed, and its members. -/
  | record (name type internalType indexed : Value) (components : Parameters)
  /-- A value in the place of a parameter. -/
  | stray (value : Value)

/-- A list of parameters. -/
inductive Parameters where
  /-- No list. -/
  | absent
  | list (parameters : List Parameter)
  /-- A value in the place of a list. -/
  | stray (value : Value)

end

instance : Inhabited Parameter := ⟨.stray .null⟩

instance : Inhabited Parameters := ⟨.absent⟩

structure FunctionRecord where
  name : Value
  stateMutability : Value
  /-- The older way to say that it does not change the state. -/
  constant : Value
  /-- The older way to say that it takes payment. -/
  payable : Value
  inputs : Parameters
  outputs : Parameters
  signature : Value
  /-- The four bytes by which a call names it. -/
  selector : Value
  httpMethod : Value

structure EventRecord where
  name : Value
  /-- Whether its topic is left out when it is recorded. -/
  anonymous : Value
  inputs : Parameters
  signature : Value
  /-- The hash of the canonical signature. -/
  topic : Value

structure ErrorRecord where
  name : Value
  inputs : Parameters
  signature : Value
  /-- The first four bytes of the hash of the canonical signature. -/
  selector : Value

/-- A record, or a value in its place. -/
inductive Slot (α : Type) where
  | record (a : α)
  /-- A value in the place of a record. -/
  | stray (value : Value)

/-- A list of records, or a value in its place. -/
inductive Slots (α : Type) where
  | list (slots : List (Slot α))
  /-- A value in the place of a list. -/
  | stray (value : Value)

structure Interface where
  contractName : Value
  functions : Slots FunctionRecord
  events : Slots EventRecord
  errors : Slots ErrorRecord

mutual

/-- The fields of a parameter as an object. -/
def Parameter.toValue : Parameter → Value
  | .record name type internalType indexed components =>
    .object [("name", name), ("type", type), ("internal_type", internalType), ("indexed", indexed),
      ("components", components.toValue)]
  | .stray v => v

/-- The parameters as a list, null if there is none. -/
def Parameters.toValue : Parameters → Value
  | .absent => .null
  | .list parameters => .list (Parameters.toValues parameters)
  | .stray v => v

/-- The parameters as objects. -/
def Parameters.toValues : List Parameter → List Value
  | [] => []
  | p :: rest => p.toValue :: Parameters.toValues rest

end

/-- The fields of a function as an object. -/
def FunctionRecord.toValue (f : FunctionRecord) : Value :=
  .object [("name", f.name), ("state_mutability", f.stateMutability), ("constant", f.constant), ("payable", f.payable),
    ("inputs", f.inputs.toValue), ("outputs", f.outputs.toValue), ("signature", f.signature), ("selector", f.selector),
    ("http_method", f.httpMethod)]

/-- The fields of an event as an object. -/
def EventRecord.toValue (e : EventRecord) : Value :=
  .object [("name", e.name), ("anonymous", e.anonymous), ("inputs", e.inputs.toValue), ("signature", e.signature),
    ("topic", e.topic)]

/-- The fields of an error as an object. -/
def ErrorRecord.toValue (e : ErrorRecord) : Value :=
  .object [("name", e.name), ("inputs", e.inputs.toValue), ("signature", e.signature), ("selector", e.selector)]

/-- The record as an object. -/
def Slot.toValue {α : Type} (f : α → Value) : Slot α → Value
  | .record a => f a
  | .stray v => v

/-- The records as a list of objects. -/
def Slots.toValue {α : Type} (f : α → Value) : Slots α → Value
  | .list slots => .list (slots.map (Slot.toValue f))
  | .stray v => v

/-- The fields of an interface as an object. -/
def Interface.toValue (i : Interface) : Value :=
  .object [("contract_name", i.contractName), ("functions", i.functions.toValue FunctionRecord.toValue),
    ("events", i.events.toValue EventRecord.toValue), ("errors", i.errors.toValue ErrorRecord.toValue)]

end ContractApi.Abi
