import ContractApi.Fault
/-!
# Notices and outcomes

- A `Notice` is something worth telling about a computation: its level, the part of the program it comes from and its
  wording are functions of what happened.
- An `Outcome` is a result or a failure, together with the notices given on the way. A failure keeps the notices that
  came before it.
-/

namespace ContractApi

/-- How serious a notice is. -/
inductive Level where
  /-- Of interest when something is being looked for. -/
  | debug
  | info
  /-- Something was lost or replaced. -/
  | warning
  | error
deriving DecidableEq, Repr

namespace Level

/-- The level as a number; settings name a least level this way. -/
def rank : Level → Int
  | debug => 10
  | info => 20
  | warning => 30
  | error => 40

/-- The level as it is written in front of a notice. -/
def word : Level → Text
  | debug => "DEBUG"
  | info => "INFO"
  | warning => "WARNING"
  | error => "ERROR"

end Level

/-- What a computation tells besides its result. -/
inductive Notice where
  | typeTooDeep (type : Text)
  | problemsFound (count : Nat)
  | itemSkipped (type : Value)
  | overwriting (name : Text)
  | documentInvalid (problems : Nat)
  | processingFailed (failure : Failure)
  | generationFailed (fault : Fault)
  | notEncodable (form : Text)
  | loadingEnvironment
  | unknownOutput (name : Text)
  | usingSettings (settings : Text)
  | inputUnreadable (source cause : Text)
  | conversionFailed (summary : Text)
  | outputWritten (folder : Text)
  | workDone

namespace Notice

/-- How serious the notice is. -/
def level : Notice → Level
  | problemsFound _ | itemSkipped _ | loadingEnvironment => .debug
  | usingSettings _ | outputWritten _ | workDone => .info
  | typeTooDeep _ | overwriting _ | documentInvalid _ | unknownOutput _ => .warning
  | processingFailed _ | generationFailed _ | notEncodable _ | inputUnreadable .. | conversionFailed _ => .error

/-- The part of the program that gives the notice. -/
def source : Notice → Text
  | typeTooDeep _ => "abi2openapi.abi.typemap"
  | problemsFound _ => "abi2openapi.abi.validator"
  | itemSkipped _ => "abi2openapi.abi.normalizer"
  | overwriting _ => "abi2openapi.openapi.assembler"
  | documentInvalid _ | processingFailed _ | generationFailed _ => "abi2openapi.conversion"
  | notEncodable _ => "abi2openapi.data.datatypes"
  | loadingEnvironment | unknownOutput _ => "abi2openapi.config.config"
  | usingSettings _ | inputUnreadable .. | conversionFailed _ | outputWritten _ | workDone => "abi2openapi.main"

/-- The wording of the notice. -/
def message : Notice → Text
  | typeTooDeep type => "Type nesting too deep, falling back for " ++ type ++ "."
  | problemsFound count => "ABI validation found " ++ Text.ofNat count ++ " problem(s)."
  | itemSkipped type => "Skipping ABI item of type " ++ type.display ++ "."
  | overwriting name => "Overwriting " ++ name ++ ", overloaded names collide."
  | documentInvalid problems => "Invalid ABI JSON structure: " ++ Text.ofNat problems ++ " error(s)."
  | processingFailed failure => "Failed to process ABI: " ++ failure.message
  | generationFailed fault => "Failed to generate OpenAPI specification: " ++ fault.report
  | notEncodable form => "Json encoder couldn't find an encoder for: " ++ form ++ ", type=<class 'complex'>"
  | loadingEnvironment => "Loading .env"
  | unknownOutput name =>
    "Output mode " ++ name ++
      " not recognized. Possible values are: ['openapi', 'parsed', 'signatures', 'events', 'all']"
  | usingSettings settings => "Using configuration: " ++ settings
  | inputUnreadable input cause => "Could not read ABI from " ++ input ++ ": " ++ cause
  | conversionFailed summary => summary
  | outputWritten folder => "Output written to " ++ folder ++ "."
  | workDone => "Work done... shutting down"

/-- The notice on one line: level, source and wording. -/
def line (notice : Notice) : Text := notice.level.word ++ ":" ++ notice.source ++ ":" ++ notice.message

end Notice

/-- A result or a failure, with the notices given until then. -/
structure Outcome (α : Type) where
  notices : List Notice
  result : Except Failure α

namespace Outcome

variable {α β : Type}

/-- The outcome of a computation that says nothing. -/
def ofExcept (result : Except Failure α) : Outcome α := ⟨[], result⟩

/-- The outcome of a computation that can only fail for a value that is not what it needs. -/
def ofFault (result : Except Fault α) : Outcome α := ⟨[], result.mapError .fault⟩

def fail (failure : Failure) : Outcome α := ⟨[], .error failure⟩

/-- Gives a notice. -/
def tell (notice : Notice) : Outcome Unit := ⟨[notice], .ok ()⟩

/-- Carries on with a result; a failure stays what it is. -/
def andThen (x : Outcome α) (f : α → Outcome β) : Outcome β :=
  match x.result with
  | .ok a => ⟨x.notices ++ (f a).notices, (f a).result⟩
  | .error failure => ⟨x.notices, .error failure⟩

instance : Monad Outcome where
  pure a := ⟨[], .ok a⟩
  bind := andThen

/-- The outcome with another failure in place of the one reached. -/
def mapFailure (f : Failure → Failure) (x : Outcome α) : Outcome α := ⟨x.notices, x.result.mapError f⟩

end Outcome

end ContractApi
