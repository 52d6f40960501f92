import ContractApi.Schema.OfType
import ContractApi.Text.Capital
/-!
# Operations

Every function of a contract becomes an operation that calls it. A function that leaves the state alone takes its inputs
from the query, any other from the request body.

- `Operation.ofFunction` makes the operation, and `Operation.toValue` is its JSON form.
-/

namespace ContractApi.OpenApi

open ContractApi.Abi

/-- The schema of a parameter of a record. -/
def parameterSchema : Parameter → Outcome Schema
  | .record _ type _ _ components => Schema.ofType type (.read components)
  | .stray v => Outcome.fail (.fault (.noProperty v.kind "type"))

def namedParameters (default : Text) (parameters : Parameters) : Outcome (List (Key × Parameter)) :=
  Outcome.ofFault do
    let elements ← parameters.elements
    return (← Schema.uniqueNames default (elements.map .read)).zip elements

/-- The entry that refers to a schema of the document. -/
def reference (schema : Text) : Value := .object [("$ref", .text ("#/components/schemas/" ++ schema))]

/-- What a request or a response contains when it has the form of a schema of the document. -/
def jsonContent (schema : Text) : Value :=
  .object [("application/json", .object [("schema", reference schema)])]

/-- A parameter in the query of a request. -/
structure QueryParameter where
  name : Key
  type : Value
  schema : Schema

/-- What a request brings along. -/
inductive Request where
  | empty
  | query (parameters : List QueryParameter)
  | body (schema : Text)

/-- A call of a function. -/
structure Operation where
  summary : Text
  description : Text
  operationId : Text
  request : Request
  response : Option Text

namespace QueryParameter

/-- The parameter as a JSON value. -/
def toValue (p : QueryParameter) : Value :=
  .object [("name", p.name.toValue), ("in", "query"), ("description", .text ("Function parameter: " ++ p.type.display)),
    ("required", .bool true), ("schema", p.schema.toValue)]

end QueryParameter

/-- The entry of an operation for what its request brings along. -/
def Request.entries : Request → List (Key × Value)
  | empty => []
  | query parameters => [("parameters", .list (parameters.map QueryParameter.toValue))]
  | body schema => [("requestBody", .object [("content", jsonContent schema), ("required", .bool true)])]

/-- A response that is described by a text alone. -/
def plainResponse (description : Text) : Value := .object [("description", .text description)]

/-- The response of a call that succeeds. -/
def successResponse : Option Text → Value
  | none => plainResponse "Successful operation"
  | some schema => .object [("description", "Successful operation"), ("content", jsonContent schema)]

def responses (response : Option Text) : Value :=
  .object [("200", successResponse response), ("400", plainResponse "Invalid input"),
    ("500", plainResponse "Server error")]

/-- The entries that every operation has. -/
def Operation.commonEntries (o : Operation) : List (Key × Value) :=
  [("summary", .text o.summary), ("description", .text o.description), ("operationId", .text o.operationId),
    ("tags", .list ["Contract Functions"]), ("responses", responses o.response)]

/-- The operation as a JSON value. -/
def Operation.toValue (o : Operation) : Value := .object (o.commonEntries ++ o.request.entries)

/-- The name of a function with its first letter in upper case; a name that is no text has no first letter. -/
def capitalized : Value → Except Fault Text
  | .text name => .ok name.capitalizeFirst
  | .list _ => .error (.noProperty .list "upper")
  | .object _ => .error .noSlice
  | v => .error (.notSubscriptable v.kind)

/-- The name of the schema for what a function takes. -/
def requestName (name : Value) : Text := name.display ++ "Request"

/-- The name of the schema for what a function returns. -/
def responseName (name : Value) : Text := name.display ++ "Response"

/-- A query parameter for each input of a function. -/
def queryParameters (inputs : Parameters) : Outcome (List QueryParameter) := do
  (← namedParameters "param" inputs).mapM fun (name, p) => do
    let schema ← parameterSchema p
    let type :=
      match p with
      | .record _ type .. => type
      | .stray v => v
    return { name, type, schema }

/-- What a call of a function brings along. -/
def requestOf (f : FunctionRecord) : Outcome Request :=
  if f.inputs.isPresent then
    match f.httpMethod with
    | .text method =>
      if method = "GET" then Request.query <$> queryParameters f.inputs else return .body (requestName f.name)
    | _ => return .body (requestName f.name)
  else return .empty

/-- The operation that calls a function. -/
def Operation.ofFunction : Slot FunctionRecord → Outcome Operation
  | .record f => do
    let name := f.name.display
    let mutability : Text :=
      if f.stateMutability.isTruthy then " (" ++ f.stateMutability.display ++ ")" else ""
    let capital ← Outcome.ofFault (capitalized f.name)
    let request ← requestOf f
    return {
      summary := "Call the " ++ name ++ " function"
      description := "Calls the '" ++ name ++ "' function on the smart contract" ++ mutability
      operationId := "call" ++ capital
      request
      response := if f.outputs.isPresent then some (responseName f.name) else none }
  | .stray v => Outcome.fail (.fault (.noProperty v.kind "state_mutability"))

end ContractApi.OpenApi
