import ContractApi.CommandLine.Run
import Std.Time.Format
/-!
# The program

Runs the command on the files, the streams and the clock of the system.
-/

namespace ContractApi

/-- The number of a cause; the system may give it with a minus sign. -/
def systemCode (code : UInt32) : Nat := if code.toNat < 0x80000000 then code.toNat else 0x100000000 - code.toNat

/-- The cause with a number, or another one with the given wording. -/
def FileFault.Cause.ofCode (code : UInt32) (wording : String) : FileFault.Cause :=
  ([missing, alreadyThere, notFolder, isFolder, nameTooLong].find? fun cause => cause.code = systemCode code).getD
    (.other (systemCode code) wording)

/-- The cause for which the system refuses a path. -/
def FileFault.Cause.ofSystem : IO.Error → FileFault.Cause
  | .noFileOrDirectory .. => .missing
  | .alreadyExists .. => .alreadyThere
  | .inappropriateType _ code details | .permissionDenied _ code details | .invalidArgument _ code details
  | .resourceExhausted _ code details => .ofCode code details
  | e => .other 0 (toString e)

/-- Tries a step on a path. -/
def attempt {α : Type} (path : Text) (step : String → IO α) : IO (Except FileFault α) := do
  match Tree.checkPath path with
  | .error fault => return .error fault
  | .ok _ =>
    try return .ok (← step path.asString)
    catch e => return .error (.refused (.ofSystem e) path)

/-- Makes a folder and, down to the given number of levels above it, those that are missing. A folder that is there
already will do. -/
def makeFoldersWithin : Nat → Text → IO (Except FileFault Unit)
  | levels, path => do
    match ← attempt path fun name => IO.FS.createDir name with
    | .error (.refused .missing _) =>
      match levels, Path.parent? path with
      | levels + 1, some parent =>
        match ← makeFoldersWithin levels parent with
        | .ok _ => attempt path fun name => IO.FS.createDir name
        | .error fault => return .error fault
      | _, _ => return .error (.refused .missing path)
    | .error (.refused .alreadyThere _) =>
      match ← attempt (path ++ "/.") fun name => IO.FS.createDir name with
      | .error (.refused .alreadyThere _) => return .ok ()
      | _ => return .error (.refused .alreadyThere path)
    | result => return result

/-- Reads a stream to its end. -/
partial def readAll (stream : IO.FS.Stream) (read : ByteArray) : IO ByteArray := do
  let more ← stream.read 65536
  if more.isEmpty then return read else readAll stream (read ++ more)

/-- A code point as the standard error output shows it. -/
def showPoint (c : CodePoint) : Text := if c.isSurrogate then c.numericEscape else [c]

instance : Surroundings IO where
  readFile path := attempt path fun name => return (← IO.FS.readBinFile name).toList
  readInput := do
    let bytes ← readAll (← IO.getStdin) .empty
    return (Text.decode bytes.toList).map CommandLine.unifyLineBreaks
  makeFolders path := makeFoldersWithin path.length path
  openFile path := attempt path fun name => IO.FS.writeBinFile name .empty
  extendFile path bytes :=
    IO.FS.withFile path.asString .append fun handle => handle.write (ByteArray.mk bytes.toArray)
  closeFile _ := return ()
  print text := do
    match text.refusal? CodePoint.isSurrogate with
    | none => return .ok (← (← IO.getStdout).putStr text.asString)
    | some (start, stop) => return .error (.unencodable text start stop)
  printError text := do (← IO.getStderr).putStr (Text.asString (text.flatMap showPoint))
  reportLost line := do
    (← IO.getStderr).putStr (Text.asString ("--- Logging error ---\nMessage: " ++ line.quoted ++ "\n"))
  levels := return 991
  clock := do return Text.ofString ((← Std.Time.PlainDateTime.now).format "uuuu-MM-dd HH:mm:ss")

/-- The variables that the settings look at, as far as they are set. -/
def systemEnvironment : IO Environment := do
  let names := [Settings.nameVariable, Settings.strictVariable, Settings.folderVariable, Settings.indentVariable]
  let found ← names.mapM fun name => do
    return (← IO.getEnv name.asString).map fun value => (name, Text.ofString value)
  return found.filterMap id

end ContractApi

/-- Runs the command; what keeps it from going on is shown, with exit code 1. -/
def main (arguments : List String) : IO UInt32 := do
  let environment ← ContractApi.systemEnvironment
  match ← ContractApi.CommandLine.run (m := IO) (arguments.map ContractApi.Text.ofString) environment with
  | .ok code => return .ofNat code
  | .error stop =>
    IO.eprintln stop.message.asString
    return 1
