import ContractApi.OpenApi.Operation
/-!
# Schemas of functions, events and errors

What a function takes and returns, and what an event or an error reports, is described by a schema of the document. A
single result without a name is described directly, without an object around it.
-/

namespace ContractApi.OpenApi

open ContractApi.Abi

def parameterFields (default : Text) (parameters : Parameters) : Outcome (List (Key × Schema)) := do
  (← namedParameters default parameters).mapM fun (name, p) => do return (name, ← parameterSchema p)

/-- What a function takes. -/
def inputSchema : Slot FunctionRecord → Outcome Schema
  | .record f => do return .tuple (← parameterFields "param" f.inputs)
  | .stray v => Outcome.fail (.fault (.noProperty v.kind "inputs"))

/-- The parameter, if it has no name. -/
def unnamed? : Parameter → Except Fault (Option Parameter)
  | p@(.record name ..) => .ok (if name.isTruthy then none else some p)
  | .stray v => .error (.noProperty v.kind "name")

/-- The only parameter of a list, if there is just one and it has no name. -/
def onlyUnnamed? : Parameters → Except Fault (Option Parameter)
  | .absent => .error (.noLength .null)
  | .list [p] => unnamed? p
  | .list _ => .ok none
  | .stray (.text [_]) => .error (.noProperty .text "name")
  | .stray (.object [_]) => .error (.missingEntry (.int 0))
  | .stray (.list [v]) => .error (.noProperty v.kind "name")
  | .stray v => if v.elements?.isSome then .ok none else .error (.noLength v.kind)

/-- What a function returns. -/
def outputSchema : Slot FunctionRecord → Outcome Schema
  | .record f => do
    match ← Outcome.ofFault (onlyUnnamed? f.outputs) with
    | some p => parameterSchema p
    | none => return .object (← parameterFields "return" f.outputs) false none
  | .stray v => Outcome.fail (.fault (.noProperty v.kind "outputs"))

/-- Whether a parameter of an event is indexed. -/
def isIndexed : Parameter → Bool
  | .record _ _ _ indexed _ => indexed.isTruthy
  | .stray _ => false

/-- What the schema of an event says of a parameter. -/
def eventNote (p : Parameter) : Text :=
  if isIndexed p then "Indexed parameter (used in event filters)" else "Non-indexed parameter"

/-- What an event reports. -/
def eventSchema : Slot EventRecord → Outcome Schema
  | .record e => do
    let fields ← (← namedParameters "param" e.inputs).mapM fun (name, p) => do
      return (name, Schema.described (← parameterSchema p) (eventNote p))
    return .object fields false (some ("Event: " ++ e.name.display))
  | .stray v => Outcome.fail (.fault (.noProperty v.kind "inputs"))

/-- What an error reports. -/
def errorSchema : Slot ErrorRecord → Outcome Schema
  | .record e => do
    return .object (← parameterFields "param" e.inputs) false (some ("Error: " ++ e.name.display))
  | .stray v => Outcome.fail (.fault (.noProperty v.kind "inputs"))

end ContractApi.OpenApi
