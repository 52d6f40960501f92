import ContractApi.CommandLine.Arguments
import ContractApi.CommandLine.Document
import ContractApi.Conversion
import ContractApi.Json.Encodable
import ContractApi.Output.Writer
/-!
# The command

The command converts one document and writes the products that are asked for.

- `run` is the whole command; its result is the exit code or what kept it from going on.
- `stepsOf` are the lines of all products, in order.
- Notices from the level of the settings on go to the standard output; one that it does not take is lost, which is
  reported to the standard error output. Before the settings are known, warnings go to the standard error output.
-/

namespace ContractApi.CommandLine

open ContractApi.Output

section

variable {m : Type → Type} [Monad m] [Surroundings m]

open Surroundings

/-- Shows a notice while the settings are being made. -/
def tellEarly (notice : Notice) : m Unit :=
  if Level.warning.rank ≤ notice.level.rank then printError (notice.message ++ "\n") else return ()

/-- A notice as it is shown at a time. -/
def noticeLine (time : Text) (notice : Notice) : Text := "[" ++ time ++ "] " ++ notice.line ++ "\n"

/-- Shows a notice if its level is high enough. -/
def tell (least : Int) (notice : Notice) : m Unit := do
  if least ≤ notice.level.rank then
    let line := noticeLine (← clock) notice
    match ← print line with
    | .ok _ => return ()
    | .error _ => reportLost line

end

/-- The exit code for a kind of result. -/
def exitCode : ConversionResult.Tag → Nat
  | .success => 0
  | .invalidAbi => 1
  | .processingError => 2

def linesOf (conversion : Conversion) (document indent : Value) : Product → Outcome (List Text)
  | .description => do return [← Json.toJson (.value document) indent]
  | .interface => do
    let parsed ← conversion.getParsed.1
    return [← Json.toJson (.value (parsed.toValue Abi.Interface.toValue)) indent]
  | .selectors => do return [← Json.toJson (.value (← conversion.selectors).toValue) indent]
  | .events => conversion.eventDefinitions

/-- The steps in which a product is written. -/
def stepsOfProduct (conversion : Conversion) (document indent : Value) (product : Product) :
    List (Writer.Step Failure) :=
  match (linesOf conversion document indent product).result with
  | .ok lines => lines.map fun line => .write line product.file
  | .error failure => [.raise failure]

/-- The steps in which the products are written that the settings ask for. -/
def stepsOf (settings : Settings) (conversion : Conversion) (document indent : Value) : List (Writer.Step Failure) :=
  (Product.all.filter settings.selects).flatMap (stepsOfProduct conversion document indent)

/-- What kept the command from going on when writing ended early. -/
def Stop.ofEnding : Writer.Ending Failure → Stop
  | .fault f => .file f
  | .raised f => .failure f

section

variable {m : Type → Type} [Monad m] [Surroundings m]

open Surroundings

/-- Writes the products of a conversion that led to a document. -/
def writeProducts (settings : Settings) (conversion : Conversion) (document indent : Value) :
    m (Except Stop Unit) := do
  match conversion.getContractName.1.result with
  | .error failure => return .error (.failure failure)
  | .ok name =>
    let course ← (Writer.ofSettings settings name).run (stepsOf settings conversion document indent)
    course.notices.forM (tell settings.logLevel)
    match course.ending with
    | none => return .ok ()
    | some ending => return .error (.ofEnding ending)

/-- Reports a conversion that led to no document. -/
def reportFailure (settings : Settings) (indent : Value) (result : ConversionResult) : m (Except Stop Nat) := do
  tell settings.logLevel (.conversionFailed (result.message?.getD []))
  match (Json.toJson (.value result.payload) indent).result with
  | .ok payload =>
    printError (payload ++ "\n")
    return .ok (exitCode result.tag)
  | .error failure => return .error (.failure failure)

/-- Converts a document and writes what comes out. -/
def convertDocument (settings : Settings) (indent raw : Value) : m (Except Stop Nat) := do
  let (outcome, conversion) :=
    Conversion.run { raw, contractName := settings.contractName, strict := .bool settings.strict }
  outcome.notices.forM (tell settings.logLevel)
  match outcome.result with
  | .error failure => return .error (.failure failure)
  | .ok (.success document) =>
    match ← writeProducts settings conversion document indent with
    | .error stop => return .error stop
    | .ok _ =>
      tell settings.logLevel .workDone
      return .ok (exitCode .success)
  | .ok result => reportFailure settings indent result

/-- Does what the arguments ask for. -/
def runArguments (arguments : Arguments) (environment : Environment) : m (Except Stop Nat) := do
  let settings : Settings := { options := arguments.options, environment }
  settings.notices.forM tellEarly
  match settings.indent, settings.describe with
  | .ok indent, .ok description => do
    tell settings.logLevel (.usingSettings description)
    match ← readDocument arguments.input with
    | .ok raw => convertDocument settings indent raw
    | .error (.unreadable cause) =>
      tell settings.logLevel (.inputUnreadable arguments.input cause)
      return .ok (exitCode .invalidAbi)
    | .error (.stopped stop) => return .error stop
  | .error fault, _ | _, .error fault => return .error (.failure (.fault fault))

/-- The command. -/
def run (arguments : List Text) (environment : Environment) : m (Except Stop Nat) := do
  match Arguments.parse arguments with
  | .ok arguments => runArguments arguments environment
  | .error exit =>
    match ← print exit.output with
    | .ok _ =>
      printError exit.errors
      return .ok exit.code
    | .error fault => return .error (.file fault)

end

end ContractApi.CommandLine
