import ContractApi.File.Surroundings
import ContractApi.Json.Reader
/-!
# The document to convert

The document is read from a file or from the standard input.

- `readDocument` gives its JSON value, or else says why there is `NoDocument`: the source cannot be read or holds no JSON,
  which is reported, or something else keeps the command from going on.
-/

namespace ContractApi.CommandLine

/-- What keeps the command from going on. -/
inductive Stop where
  | failure (failure : Failure)
  | file (fault : FileFault)
  | undecodable (fault : Text.DecodeFault)

/-- The wording of what keeps the command from going on. -/
def Stop.message : Stop → Text
  | failure f => f.message
  | file f => f.message
  | undecodable f => f.message

/-- Why there is no document. -/
inductive NoDocument where
  /-- The source cannot be read or holds no JSON; the cause is reported. -/
  | unreadable (cause : Text)
  /-- Something is wrong that is not reported. -/
  | stopped (stop : Stop)

/-- The word for the standard input. -/
def standardInput : Text := "-"

/-- The text with a line feed for every line break. -/
def unifyLineBreaks : Text → Text
  | [] => []
  | [c] => if c = '\r' then ['\n'] else [c]
  | c :: d :: rest =>
    if c = '\r' then
      if d = '\n' then '\n' :: unifyLineBreaks rest else '\n' :: unifyLineBreaks (d :: rest)
    else c :: unifyLineBreaks (d :: rest)

def textOfFile (bytes : List UInt8) : Except NoDocument Text :=
  match Text.decode bytes with
  | .ok text => .ok (unifyLineBreaks text)
  | .error fault => .error (.stopped (.undecodable fault))

/-- The value of a JSON text, with room for so many levels of lists and objects. -/
def parseDocument (levels : Nat) (text : Text) : Except NoDocument Value :=
  match Json.readWithin levels text with
  | .ok value => .ok value
  | .error (.tooLong digits) => .error (.stopped (.failure (.fault (.notInteger [] (.tooLong digits)))))
  | .error (.tooDeep kind) => .error (.stopped (.failure (.fault (.documentTooDeep kind))))
  | .error (.problem what rest) => .error (.unreadable (Json.ReadFault.message text (.problem what rest)))

section

variable {m : Type → Type} [Monad m] [Surroundings m]

open Surroundings

def readSource (source : Text) : m (Except NoDocument Text) := do
  if source = standardInput then
    return (← readInput).mapError fun fault => .stopped (.undecodable fault)
  else
    match ← readFile source with
    | .ok bytes => return textOfFile bytes
    | .error (.refused cause path) => return .error (.unreadable (FileFault.refused cause path).message)
    | .error fault => return .error (.stopped (.file fault))

def readDocument (source : Text) : m (Except NoDocument Value) := do
  return (← readSource source).bind (parseDocument (← levels))

end

end ContractApi.CommandLine
