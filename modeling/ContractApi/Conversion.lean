import ContractApi.Abi.Reading
import ContractApi.OpenApi.Document
/-!
# Conversion

A conversion takes a document through validation, reading and the building of its description.

- `Conversion.run` gives a tagged result and never fails: the description, the problems of an invalid document, or the
  cause for which there is no description.
- A `Conversion` computes each step at most once and keeps the result, also when the document is changed afterwards. A
  step that fails is not kept.
- `convert` and `describe` convert one document.
-/

namespace ContractApi

open ContractApi.Abi ContractApi.OpenApi

/-- The tagged result of a conversion. -/
inductive ConversionResult where
  | success (document : Value)
  | invalid (summary : Text) (problems : List Text)
  /-- The document is valid, and yet there is no description. -/
  | failed (summary cause : Text)

namespace ConversionResult

/-- The kinds of result. -/
inductive Tag where
  | success
  | invalidAbi
  | processingError
deriving DecidableEq, Repr

/-- The word for a kind. -/
def Tag.word : Tag → Text
  | success => "success"
  | invalidAbi => "invalid_abi"
  | processingError => "processing_error"

/-- The kind of a result. -/
def tag : ConversionResult → Tag
  | success _ => .success
  | invalid .. => .invalidAbi
  | failed .. => .processingError

/-- The description, null if there is none. -/
def document : ConversionResult → Value
  | success document => document
  | _ => .null

/-- The summary of a failure. -/
def message? : ConversionResult → Option Text
  | success _ => none
  | invalid summary _ | failed summary _ => some summary

/-- The problems or the cause of a failure. -/
def errors : ConversionResult → List Text
  | success _ => []
  | invalid _ problems => problems
  | failed _ cause => [cause]

/-- What is reported of a failure. -/
def payload (r : ConversionResult) : Value :=
  .object [("error", .bool true), ("message", (r.message?.map Value.text).getD .null),
    ("details", .list (r.errors.map .text))]

end ConversionResult

/-- Whether there is nothing to convert. -/
def isEmptyBody : Value → Bool
  | .null | .object [] => true
  | _ => false

/-- Whether a value has the text in it: as a part of a text, as an item of a list, or as a key of an object. -/
def hasWithin (part : Text) : Value → Except Fault Bool
  | .text t => .ok (part.includes t)
  | .list items => .ok (items.any fun
    | .text t => t = part
    | _ => false)
  | .object entries => .ok (Table.contains (.text part) entries)
  | v => .error (.notContainer v.kind)

/-- Makes sure that a value can be the description of an interface. -/
def checkDescription (document : Value) : Except Failure Unit :=
  if document.isTruthy then do
    if ← liftFault (hasWithin "openapi" document) then
      if ← liftFault (hasWithin "paths" document) then return ()
    .error .invalidDocument
  else .error .invalidDocument

/-- The conversion of a document. -/
structure Conversion where
  raw : Value
  /-- The name that the contract is given, if it counts as one. -/
  contractName : Value
  strict : Value
  validation : Option Validation := none
  parsed : Option (Slot Interface) := none
  document : Option Value := none

namespace Conversion

/-- A step of a conversion: its outcome, and the conversion after it. -/
abbrev Step (α : Type) := Conversion → Outcome α × Conversion

/-- The notice of what validation found. -/
def validationNotices : Validation → List Notice
  | .checked (p :: problems) => [.problemsFound (p :: problems).length]
  | _ => []

/-- The result of validation, as it is kept or as it comes out now. -/
def currentValidation (c : Conversion) : Validation := c.validation.getD (validate c.raw)

/-- Validates the document. -/
def getValidation : Step Validation := fun c =>
  let validation := c.currentValidation
  let notices := if c.validation.isSome then [] else validationNotices validation
  (⟨notices, .ok validation⟩, { c with validation := some validation })

/-- Reads the document. -/
def getParsed : Step (Slot Interface) := fun c =>
  match c.parsed with
  | some p => (return p, c)
  | none =>
    let outcome := Slot.record <$> readInterface c.raw c.contractName
    (outcome, { c with parsed := outcome.result.toOption })

/-- Describes the interface. -/
def getDocument : Step Value := fun c =>
  match c.document with
  | some d => (return d, c)
  | none =>
    let (read, c) := getParsed c
    let outcome := do return (← assemble (← read) c.strict).toValue
    (outcome, { c with document := outcome.result.toOption })

def getContractName : Step Value := fun c =>
  let (read, c) := getParsed c
  let name : Outcome Value := do
    match ← read with
    | .record i => return i.contractName
    | .stray v => .fail (.fault (.noProperty v.kind "contract_name"))
  (name, c)

/-- The item list of the document as it is now. -/
def items (c : Conversion) : Value := ((itemList? c.raw).map Value.list).getD .null

/-- The selectors of the document as it is now. -/
def selectors (c : Conversion) : Outcome Selectors := .ofFault (Selectors.of c.items)

/-- The event prototypes of the document as it is now. -/
def eventDefinitions (c : Conversion) : Outcome (List Text) := .ofFault (eventPrototypes c.items)

/-- The summary of a document that is missing. -/
def emptyBody : Text := "Request body is empty"

/-- The result of a conversion for which there is no description. -/
def failedResult (failure : Failure) : List Notice × ConversionResult :=
  match failure with
  | .fault f => ([.generationFailed f], .failed "Failed to generate OpenAPI specification" f.message)
  | failure => ([.processingFailed failure], .failed "Failed to process ABI" failure.message)

/-- The result that the outcome of describing an interface leads to. -/
def resultOf (description : Outcome Value) : Outcome ConversionResult :=
  match description.result.bind fun d => (checkDescription d).map fun _ => d with
  | .ok d => ⟨description.notices, .ok (.success d)⟩
  | .error failure =>
    let (notices, result) := failedResult failure
    ⟨description.notices ++ notices, .ok result⟩

/-- Validates, reads and describes. -/
def run : Step ConversionResult := fun c =>
  if isEmptyBody c.raw then (return .invalid emptyBody [emptyBody], c)
  else
    let (validated, c') := getValidation c
    let validation := c.currentValidation
    if validation.isValid then
      let (description, c'') := getDocument c'
      (validated.andThen fun _ => resultOf description, c'')
    else
      let rejected : Outcome ConversionResult :=
        ⟨[.documentInvalid validation.errors.length], .ok (.invalid "Invalid ABI JSON structure" validation.errors)⟩
      (validated.andThen fun _ => rejected, c')

/-- The document with an item added to its list, if it has one. -/
def appended? (item : Value) : Value → Option Value
  | .list items => some (.list (items ++ [item]))
  | .object entries =>
    match Value.field "abi" entries with
    | .list items => some (.object (Table.insert (.text "abi") (.list (items ++ [item])) entries))
    | _ => none
  | _ => none

/-- The conversion with an item added to the list of its document. -/
def append (item : Value) : Step Unit := fun c =>
  match appended? item c.raw with
  | some raw => (return (), { c with raw })
  | none => (.fail (.fault (.noProperty .null "append")), c)

end Conversion

/-- Converts a document. -/
def convert (raw contractName strict : Value) : Outcome ConversionResult :=
  (Conversion.run { raw, contractName, strict }).1

/-- Describes the interface of a document; anything but a description is a failure. -/
def describe (raw contractName strict : Value) : Outcome Value := do
  match ← convert raw contractName strict with
  | .success document => return document
  | .invalid summary problems => .fail (.rejected summary problems)
  | .failed summary cause => .fail (.unprocessed summary [cause])

end ContractApi
