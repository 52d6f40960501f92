import ContractApi.OpenApi.Components
import ContractApi.Text.Small
/-!
# Documents

A document describes an interface: an operation for each function under the path of its name, and the schemas that they
refer to, together with those of events and errors.

- `documentEntries` lists what a document consists of, in the order in which it is entered.
- `buildDocument` enters everything. Overloaded functions share a path and names of schemas; the later entry stays in the
  place of the earlier one, with a notice.
- An `Assembler` builds documents and remembers every collision; if it is strict, a collision is a failure.
-/

namespace ContractApi.OpenApi

open ContractApi.Abi

/-- The description of an interface. -/
structure Document where
  contractName : Value
  paths : Table Text (Table Text Operation)
  schemas : Table Text Schema

namespace Document

/-- A document without operations and schemas. -/
def empty (contractName : Value) : Document := ⟨contractName, [], []⟩

/-- The document as a JSON value. -/
def toValue (d : Document) : Value :=
  let name := d.contractName.display
  .object [("openapi", "3.0.0"),
    ("info", .object [("title", .text (name ++ " API")),
      ("description", .text ("API for interacting with the " ++ name ++ " smart contract")), ("version", "1.0.0")]),
    ("paths", .object (d.paths.map fun (path, operations) =>
      (.text path, .object (operations.map fun (method, o) => (.text method, o.toValue))))),
    ("components", .object [("schemas", .object (d.schemas.map fun (name, s) => (.text name, s.toValue)))])]

end Document

/-- Something that is entered into a document. -/
inductive DocumentEntry where
  | operation (path method : Text) (operation : Operation)
  | schema (name : Text) (schema : Schema)

namespace DocumentEntry

/-- The name by which a collision of the entry is reported. -/
def collisionName : DocumentEntry → Text
  | operation path method _ => "operation " ++ path ++ " " ++ method
  | schema name _ => "schema " ++ name

/-- Whether the document has an entry in the same place. -/
def collides (d : Document) : DocumentEntry → Bool
  | operation path method _ => ((Table.get? path d.paths).getD []).contains method
  | schema name _ => d.schemas.contains name

/-- The document with the entry written in its place. -/
def write (d : Document) : DocumentEntry → Document
  | operation path method o =>
    { d with paths := Table.insert path (Table.insert method o ((Table.get? path d.paths).getD [])) d.paths }
  | schema name s => { d with schemas := Table.insert name s d.schemas }

/-- Enters something into a document, with a notice if it takes the place of an earlier entry. -/
def enter (d : Document) (e : DocumentEntry) : Outcome Document :=
  ⟨if e.collides d then [.overwriting e.collisionName] else [], .ok (e.write d)⟩

end DocumentEntry

/-- The path of a function's operations. -/
def pathOf (name : Value) : Text := "/contract/" ++ name.display

/-- What a function enters into a document: its operation, and the schemas of what it takes and returns. -/
def functionEntries : Slot FunctionRecord → List (Outcome DocumentEntry)
  | .record f =>
    let operation : Outcome DocumentEntry :=
      match f.httpMethod with
      | .text method => do
        return .operation (pathOf f.name) method.lower (← Operation.ofFunction (.record f))
      | v => Outcome.fail (.fault (.noProperty v.kind "lower"))
    let input : Outcome DocumentEntry := do return .schema (requestName f.name) (← inputSchema (.record f))
    let output : Outcome DocumentEntry := do return .schema (responseName f.name) (← outputSchema (.record f))
    operation :: (if f.inputs.isPresent then [input] else []) ++ (if f.outputs.isPresent then [output] else [])
  | .stray v => [Outcome.fail (.fault (.noProperty v.kind "name"))]

/-- What an event enters into a document. -/
def eventEntries : Slot EventRecord → List (Outcome DocumentEntry)
  | .record e => [do return .schema (e.name.display ++ "Event") (← eventSchema (.record e))]
  | .stray v => [Outcome.fail (.fault (.noProperty v.kind "name"))]

/-- What an error enters into a document. -/
def errorEntries : Slot ErrorRecord → List (Outcome DocumentEntry)
  | .record e => [do return .schema (e.name.display ++ "Error") (← errorSchema (.record e))]
  | .stray v => [Outcome.fail (.fault (.noProperty v.kind "name"))]

/-- What a list of records enters into a document. -/
def slotsEntries {α : Type} (entries : Slot α → List (Outcome DocumentEntry)) :
    Slots α → List (Outcome DocumentEntry)
  | .list slots => slots.flatMap entries
  | .stray v =>
    match v.elements? with
    | some elements => elements.flatMap fun e => entries (.stray e)
    | none => [Outcome.fail (.fault (.notIterable v.kind))]

/-- What an interface enters into a document: its functions, its events and its errors. -/
def documentEntries (i : Interface) : List (Outcome DocumentEntry) :=
  slotsEntries functionEntries i.functions ++ slotsEntries eventEntries i.events ++
    slotsEntries errorEntries i.errors

/-- Enters everything into a document, in order. -/
def enterAll (d : Document) : List (Outcome DocumentEntry) → Outcome Document
  | [] => return d
  | e :: rest => do enterAll (← (← e).enter d) rest

/-- The document of an interface before anything is entered. -/
def emptyDocument : Slot Interface → Outcome Document
  | .record i => return .empty i.contractName
  | .stray v => Outcome.fail (.fault (.noProperty v.kind "contract_name"))

/-- The document of an interface, whatever collides. -/
def buildDocument : Slot Interface → Outcome Document
  | .record i => enterAll (.empty i.contractName) (documentEntries i)
  | .stray v => emptyDocument (.stray v)

/-- The collision that a notice tells of. -/
def collision? : Notice → Option Text
  | .overwriting name => some name
  | _ => none

/-- Builds documents of an interface. -/
structure Assembler where
  parsed : Slot Interface
  strict : Value
  /-- What has collided so far. -/
  collisions : List Text := []

namespace Assembler

/-- Builds the document. The collisions are kept, also if the building fails. -/
def build (a : Assembler) : Outcome Document × Assembler :=
  let built := buildDocument a.parsed
  let collisions := a.collisions ++ built.notices.filterMap collision?
  let outcome : Outcome Document := do
    let document ← built
    if a.strict.isTruthy && !collisions.isEmpty then Outcome.fail (.collisions collisions) else return document
  (outcome, { a with collisions })

end Assembler

/-- A fault of a value makes an interface impossible to describe; other failures stay what they are. -/
def inAssembling : Failure → Failure
  | .fault f => .unassemblable f
  | failure => failure

def assemble (parsed : Slot Interface) (strict : Value) : Outcome Document :=
  (Assembler.build { parsed, strict }).1.mapFailure inAssembling

end ContractApi.OpenApi
