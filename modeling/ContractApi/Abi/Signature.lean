import ContractApi.Abi.Alias
import ContractApi.Abi.Item
import ContractApi.Fault
import ContractApi.Keccak
/-!
# Signatures

An item of an interface is identified by its name and the types of its inputs.

- `plainSignature` has the types as they are written, so every tuple is `tuple`.
- `canonicalSignature` has the canonical types: a tuple is the list of its members' types in parentheses, and aliases
  are expanded.
- `selector` and `topic` are the first four bytes and the whole of the canonical signature's hash.
- `prototype` is the readable form of an event.
-/

namespace ContractApi.Abi

/-- The elements of a list that may be missing: of null and of all that counts as nothing there are none. -/
def listed (v : Value) : Except Fault (List Value) :=
  if v.isTruthy then
    match v.elements? with
    | some elements => .ok elements
    | none => .error (.notIterable v.kind)
  else .ok []

/-- The entries of an object, which every rule that looks for an entry asks for. -/
def entriesOf : Value → Except Fault (List (Key × Value))
  | .object entries => .ok entries
  | v => .error (.noProperty v.kind "get")

/-- The parts joined with commas; each has to be a text. -/
def joinTexts (separator : Text) (parts : List Value) : Except Fault Text := do
  let texts ← parts.zipIdx.mapM fun (part, i) =>
    match part with
    | .text t => .ok t
    | v => .error (Fault.notText i v.kind)
  return Text.joined separator texts

/-- The name of an item with its list of types. -/
def signatureText (name types : Text) : Text := name ++ "(" ++ types ++ ")"

/-- The name that a signature shows, empty if there is none. -/
def nameIn (entries : List (Key × Value)) : Text := ((Value.field "name" entries).orElse "").display

/-- How the name of a tuple type begins. -/
def tupleWord : Text := "tuple"

mutual

/-- The canonical type of a parameter. -/
def canonicalType : Value → Except Fault Text
  | .object entries =>
    match (Value.lookup? "type" entries).getD "" with
    | .text type =>
      if tupleWord.isPrefixOf type then do
        let members ← memberTypes entries
        return "(" ++ Text.joined "," members ++ ")" ++ type.drop tupleWord.length
      else .ok (expandAliases type)
    | v => .error (.noProperty v.kind "startswith")
  | v => .error (.noProperty v.kind "get")

/-- The canonical types of a tuple's members, which the first entry under `components` lists. -/
def memberTypes : List (Key × Value) → Except Fault (List Text)
  | [] => .ok []
  | (key, v) :: rest =>
    if key = .text "components" then canonicalTypesIn v else memberTypes rest

def canonicalTypesIn : Value → Except Fault (List Text)
  | .list parameters => canonicalTypes parameters
  | v => do
    match ← listed v with
    | [] => return []
    | first :: _ => .error (.noProperty first.kind "get")

/-- The canonical types of parameters. -/
def canonicalTypes : List Value → Except Fault (List Text)
  | [] => .ok []
  | p :: rest => do return (← canonicalType p) :: (← canonicalTypes rest)

end

/-- The name with the input types as they are written. -/
def plainSignature (item : Value) : Except Fault Text := do
  let entries ← entriesOf item
  let inputs ← listed (Value.field "inputs" entries)
  let types ← inputs.mapM fun p => do return (Value.lookup? "type" (← entriesOf p)).getD ""
  return signatureText (nameIn entries) (← joinTexts "," types)

/-- The name with the canonical input types. -/
def canonicalSignature (item : Value) : Except Fault Text := do
  let entries ← entriesOf item
  let inputs ← listed (Value.field "inputs" entries)
  return signatureText (nameIn entries) (Text.joined "," (← canonicalTypes inputs))

def signatureHash (signature : Text) : Except Fault Text :=
  (Keccak.digest signature).mapError fun (start, stop) => .unencodable signature start stop

/-- The first four bytes of a signature's hash. -/
def shortHash (signature : Text) : Except Fault Text := (signatureHash signature).map (·.take 10)

/-- The four bytes by which a call names a function. -/
def selector (item : Value) : Except Fault Text := do shortHash (← canonicalSignature item)

/-- The hash under which an event is recorded. -/
def topic (item : Value) : Except Fault Text := do signatureHash (← canonicalSignature item)

/-- An input of an event: its type, `indexed` if it is so, and its name, as far as there are any. -/
def inputPrototype (parameter : Value) : Except Fault Text := do
  let entries ← entriesOf parameter
  let indexed : Value := if (Value.field "indexed" entries).isTruthy then "indexed" else ""
  let parts := [(Value.lookup? "type" entries).getD "", indexed, (Value.field "name" entries).orElse ""]
  joinTexts " " (parts.filter Value.isTruthy)

/-- An event as a readable prototype. -/
def prototype (event : Value) : Except Fault Text := do
  let entries ← entriesOf event
  let inputs ← listed (Value.field "inputs" entries)
  return signatureText (nameIn entries) (Text.joined ", " (← inputs.mapM inputPrototype))

/-- The items of a kind among those that a value lists. -/
def itemsOfKind (kind : ItemKind) (items : Value) : Except Fault (List Value) :=
  (listed items).map (·.filter (ItemKind.of · = kind))

/-- The canonical signatures of the functions among some items. -/
def functionSignatures (items : Value) : Except Fault (List Text) := do
  (← itemsOfKind .function items).mapM canonicalSignature

/-- The prototypes of the events among some items. -/
def eventPrototypes (items : Value) : Except Fault (List Text) := do
  (← itemsOfKind .event items).mapM prototype

/-- The hashes of functions, errors and events, each under its canonical signature. -/
structure Selectors where
  functions : Table Text Text
  errors : Table Text Text
  events : Table Text Text

/-- The hashes of some items under their canonical signatures. -/
def hashTable (hash : Value → Except Fault Text) (items : List Value) : Except Fault (Table Text Text) := do
  let entries ← items.mapM fun item => do return (← canonicalSignature item, ← hash item)
  return Table.ofList entries

/-- The selectors and topics of the items that a value lists. -/
def Selectors.of (items : Value) : Except Fault Selectors := do
  return {
    functions := ← hashTable selector (← itemsOfKind .function items)
    errors := ← hashTable selector (← itemsOfKind .error items)
    events := ← hashTable topic (← itemsOfKind .event items) }

/-- The table of selectors as a value. -/
def Selectors.toValue (s : Selectors) : Value :=
  let table (t : Table Text Text) : Value := .object (t.map fun (k, v) => (.text k, .text v))
  .object [("functions", table s.functions), ("errors", table s.errors), ("events", table s.events)]

end ContractApi.Abi
