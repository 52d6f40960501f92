import ContractApi.Outcome
import ContractApi.Text.Small
/-!
# Settings

`Options` are what is asked for on a command line. `Settings` are options together with environment variables: where an
option says nothing, a variable counts, and after it a default.

- `Settings.selects` says whether a product is to be written.
- `Settings.describe` is the one-line description of all settings, which fails if the indentation is no number.
-/

namespace ContractApi

/-- What can be produced from an interface. -/
inductive Product where
  | description
  | interface
  | selectors
  | events
deriving DecidableEq, Repr

namespace Product

/-- The products in the order in which they are written. -/
def all : List Product := [description, interface, selectors, events]

/-- The word by which a product is asked for. -/
def word : Product → Text
  | description => "openapi"
  | interface => "parsed"
  | selectors => "signatures"
  | events => "events"

/-- The name of the file that a product goes to. -/
def file : Product → Text
  | description => "openapi.json"
  | interface => "parsed_abi.json"
  | selectors => "signatures.json"
  | events => "events.txt"

/-- The word by which all products are asked for. -/
def allWord : Text := "all"

end Product

/-- What is asked for. The name, the folder and the indentation are null unless they are asked for, and empty lists if no
value is named with them. -/
structure Options where
  /-- The least level of the notices that are shown. -/
  logLevel : Option Int := none
  contractName : Value := .null
  strict : Bool := false
  toFiles : Bool := false
  /-- The folder for all output. -/
  outputFolder : Value := .null
  indent : Value := .null
  outputs : Option (List Text) := none
  skipsEnvironmentFile : Bool := false

/-- Environment variables. -/
abbrev Environment := Table Text Text

/-- Options and environment variables. -/
structure Settings where
  options : Options
  environment : Environment

namespace Settings

/-- The environment variable for the name of the contract. -/
def nameVariable : Text := "ABI2OPENAPI_CONTRACT_NAME"

/-- The environment variable for whether collisions are failures. -/
def strictVariable : Text := "ABI2OPENAPI_STRICT"

/-- The environment variable for the folder for all output. -/
def folderVariable : Text := "ABI2OPENAPI_OUTPUTDIR"

/-- The environment variable for the indentation of JSON texts. -/
def indentVariable : Text := "ABI2OPENAPI_INDENT"

/-- What the variable for strictness has to say, in letters of either case. -/
def trueWord : Text := "true"

/-- The value of an environment variable, unless it is empty. -/
def nonempty? (s : Settings) (variableName : Text) : Option Text :=
  (Table.get? variableName s.environment).filter (!·.isEmpty)

/-- The least level of the notices that are shown. -/
def logLevel (s : Settings) : Int :=
  match s.options.logLevel with
  | some n => if n = 0 then Level.warning.rank else n
  | none => Level.warning.rank

/-- The name of the contract, null if none is set. -/
def contractName (s : Settings) : Value :=
  s.options.contractName.orElse <|
    match Table.get? nameVariable s.environment with
    | some name => .text name
    | none => .null

/-- Whether collisions are failures. -/
def strict (s : Settings) : Bool :=
  s.options.strict || (Table.get? strictVariable s.environment).any fun t => t.lower = trueWord

def outputFolder (s : Settings) : Text :=
  match s.options.outputFolder with
  | .text (c :: folder) => c :: folder
  | _ => (Table.get? folderVariable s.environment).getD "abi2openapi-output"

/-- The indentation of JSON texts. -/
def indent (s : Settings) : Except Fault Value :=
  match s.options.indent with
  | .null =>
    match s.nonempty? indentVariable with
    | none => .ok (.int 4)
    | some text => ((Numeral.read text).mapError (.notInteger text)).map .int
  | indent => .ok indent

/-- The words of the products that are asked for. -/
def outputs (s : Settings) : List Text :=
  match s.options.outputs with
  | some (word :: words) => word :: words
  | _ => [Product.description.word]

/-- Whether all products are asked for. -/
def selectsAll (s : Settings) : Bool := s.outputs.contains Product.allWord

/-- Whether a product is to be written. -/
def selects (s : Settings) (product : Product) : Bool := s.outputs.contains product.word || s.selectsAll

/-- Whether the products have to be told apart. -/
def selectsSeveral (s : Settings) : Bool := 1 < s.outputs.length || s.selectsAll

/-- Whether output goes to files. -/
def toFiles (s : Settings) : Bool := s.options.toFiles

/-- The words that are asked for and stand for no product. -/
def unknownOutputs (s : Settings) : List Text :=
  s.outputs.filter fun word => !(Product.all.map Product.word).contains word && word ≠ Product.allWord

/-- What is told when the settings are made. -/
def notices (s : Settings) : List Notice :=
  (if s.options.skipsEnvironmentFile then [] else [.loadingEnvironment]) ++ s.unknownOutputs.map .unknownOutput

/-- All settings on one line. -/
def describe (s : Settings) : Except Fault Text := do
  let indent ← s.indent
  return "Configuration(loglevel=" ++ Text.ofInt s.logLevel ++ ", contract_name=" ++ s.contractName.display ++
    ", strict=" ++ Text.ofBool s.strict ++ ", output=" ++ (Value.list (s.outputs.map .text)).quoted ++
    ", to_file=" ++ Text.ofBool s.toFiles ++ ", output_dir=" ++ s.outputFolder ++ ", indent=" ++ indent.display ++ ")"

end Settings

end ContractApi
