import ContractApi.Value.Display
/-!
# Schemas

A `Schema` says what the JSON form of a value looks like. `Schema.toValue` is its own JSON form.
-/

namespace ContractApi

/-- The description of a value. -/
inductive Schema where
  /-- A text of unknown form, for a type that is not known. -/
  | unknown (type : Value)
  /-- An integer type; integers are written as texts, since they may be larger than JSON readers bear. -/
  | integer (type : Text)
  | boolean
  | address
  | string
  /-- A type of byte sequences, which are written in base 16. -/
  | bytes (type : Text)
  | array (items : Schema)
  /-- An object with a field for each name; the fields may be required, and the object may have a description. -/
  | object (fields : List (Key × Schema)) (required : Bool) (description : Option Text)
  /-- A schema under another description. -/
  | described (schema : Schema) (description : Text)

namespace Schema

/-- An object of which every field is required. -/
def tuple (fields : List (Key × Schema)) : Schema := .object fields true none

/-- An object with an entry added, or put in the place of the one that has the key. -/
def withEntry (name : Text) (v : Value) : Value → Value
  | .object entries => .object (Table.insert (.text name) v entries)
  | other => other

def descriptionEntry : Option Text → List (Key × Value)
  | some description => [("description", .text description)]
  | none => []

/-- The entry that lists the names of the fields, if they are required. -/
def requirementEntry (required : Bool) (fields : List (Key × Schema)) : List (Key × Value) :=
  if required then [("required", .list (fields.map fun f => f.1.toValue))] else []

mutual

/-- The schema as a JSON value. -/
def toValue : Schema → Value
  | unknown type => .object [("type", "string"), ("description", .text ("Solidity type: " ++ type.display))]
  | integer type =>
    .object [("type", "string"), ("pattern", "^[0-9]+$"),
      ("description", .text (type ++ " (as string due to potential large values)"))]
  | boolean => .object [("type", "boolean")]
  | address =>
    .object [("type", "string"), ("pattern", "^0x[a-fA-F0-9]\x7b40\x7d$"),
      ("description", "Ethereum address (40 hex characters prefixed with 0x)")]
  | string => .object [("type", "string")]
  | bytes type =>
    .object [("type", "string"), ("pattern", "^0x[a-fA-F0-9]*$"),
      ("description", .text (type ++ " (hex string prefixed with 0x)"))]
  | array items => .object [("type", "array"), ("items", items.toValue)]
  | object fields required description =>
    .object (("type", "object") :: ("properties", .object (fieldValues fields)) ::
      (requirementEntry required fields ++ descriptionEntry description))
  | described schema description => withEntry "description" (.text description) schema.toValue

/-- The fields of an object as JSON values. -/
def fieldValues : List (Key × Schema) → List (Key × Value)
  | [] => []
  | (name, schema) :: rest => (name, schema.toValue) :: fieldValues rest

end

end Schema

end ContractApi
