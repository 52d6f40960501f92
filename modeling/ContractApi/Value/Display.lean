import ContractApi.Value.Basic
import ContractApi.Text.Quoted
/-!
# Values in messages

`Value.display` is how a value appears in a name, a description or a message. A text appears as it is; inside a list or
an object it is quoted.
-/

namespace ContractApi

namespace Kind

/-- The word by which messages name the kind. -/
def word : Kind → Text
  | .null => "NoneType"
  | .bool => "bool"
  | .int => "int"
  | .float => "float"
  | .text => "str"
  | .list => "list"
  | .object => "dict"

end Kind

/-- The word for a truth value. -/
def Text.ofBool (b : Bool) : Text := if b then "True" else "False"

/-- A key as it appears in an object. -/
def Key.quoted : Key → Text
  | .bool b => Text.ofBool b
  | .int n => Text.ofInt n
  | .float x => x.plain
  | .text t => t.quoted

/-- A key as it appears in a name that is made from it. -/
def Key.display : Key → Text
  | .text t => t
  | k => k.quoted

namespace Value

mutual

/-- A value as it appears inside another one. -/
def quoted : Value → Text
  | .null => "None"
  | .bool b => Text.ofBool b
  | .int n => Text.ofInt n
  | .float x => x.plain
  | .text t => t.quoted
  | .list items => "[" ++ Text.joined ", " (quotedItems items) ++ "]"
  | .object entries => "\x7b" ++ Text.joined ", " (quotedEntries entries) ++ "\x7d"

/-- The items of a list, each as it appears there. -/
def quotedItems : List Value → List Text
  | [] => []
  | v :: rest => quoted v :: quotedItems rest

/-- The entries of an object, each as it appears there. -/
def quotedEntries : List (Key × Value) → List Text
  | [] => []
  | (k, v) :: rest => (k.quoted ++ ": " ++ quoted v) :: quotedEntries rest

end

/-- A value as it appears in a message or a name. -/
def display : Value → Text
  | .text t => t
  | v => v.quoted

end Value

end ContractApi
