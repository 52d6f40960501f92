import ContractApi.File.Surroundings
import ContractApi.Output.Folder
import ContractApi.Settings
/-!
# Writing output

The output for a contract consists of lines, each of which belongs to a file. Depending on the settings the files are
made, or their lines are printed, with a header before the first line of each file if there is more than one of them.

- `Writer.write` writes one line. A line that cannot be written ends the block like something that is raised.
- `Writer.run` carries out the steps of a block, in which lines are written until it ends or something is raised; at its
  end all files are closed.
-/

namespace ContractApi.Output

/-- The writer of the output for a contract. -/
structure Writer where
  folder : Text
  toFiles : Bool
  several : Bool
  /-- The files whose header was printed, in order. -/
  headed : List Text := []
  opened : List Text := []

namespace Writer

/-- The writer for the contract of the given name. -/
def ofSettings (settings : Settings) (identifier : Value) : Writer where
  folder := Path.joined settings.outputFolder (folderName identifier)
  toFiles := settings.toFiles
  several := settings.selectsSeveral

def path (w : Writer) (file : Text) : Text := Path.joined w.folder file

/-- The dashes on both sides of a header. -/
def dashes : Text := List.replicate 20 '-'

/-- The heading of a file. -/
def heading (w : Writer) (file : Text) : Text := "\n\n" ++ dashes ++ w.path file ++ dashes ++ "\n\n"

/-- What is printed before the first line of a file. -/
def header (w : Writer) (file : Text) : Text := w.heading file ++ "\n"

/-- Whether a header has to be printed before the next line of a file. -/
def needsHeader (w : Writer) (file : Text) : Bool := w.several && !w.toFiles && !w.headed.contains file

/-- What is printed for a line, unless it goes to a file. -/
def printed (w : Writer) (line file : Text) : Text :=
  (if w.needsHeader file then w.header file else []) ++ line ++ "\n"

/-- The writer after a line of a file was printed. -/
def afterPrinting (w : Writer) (file : Text) : Writer :=
  if w.needsHeader file then { w with headed := w.headed ++ [file] } else w

section

variable {m : Type → Type} [Monad m] [Surroundings m]

open Surroundings

/-- Opens a file unless it is open. -/
def ensureOpen (w : Writer) (file : Text) : m (Except FileFault Writer) := do
  if w.opened.contains file then return .ok w
  match ← openFile (w.path file) with
  | .ok _ => return .ok { w with opened := w.opened ++ [file] }
  | .error fault => return .error fault

/-- Writes a line to an open file. -/
def extend (w : Writer) (line file : Text) : m (Except FileFault Unit) :=
  match line.encode with
  | .ok bytes => do
    extendFile (w.path file) (bytes ++ [.ofNat 0x0A])
    return .ok ()
  | .error (start, stop) => return .error (.unencodable line start stop)

/-- Prints a line and its end. -/
def printLine (line : Text) : m (Except FileFault Unit) := do
  match ← print line with
  | .ok _ => print "\n"
  | .error fault => return .error fault

/-- Prints the header of a file unless it is not needed. -/
def ensureHeader (w : Writer) (file : Text) : m (Except FileFault Writer) := do
  if w.needsHeader file then
    match ← printLine (w.heading file) with
    | .ok _ => return .ok (w.afterPrinting file)
    | .error fault => return .error fault
  else return .ok w

/-- Writes a line. The writer may have opened a file or printed its header even if the line could not be written. -/
def write (w : Writer) (line file : Text) : m (Writer × Except FileFault Unit) := do
  if w.toFiles then
    match ← w.ensureOpen file with
    | .ok w => return (w, ← w.extend line file)
    | .error fault => return (w, .error fault)
  else
    match ← w.ensureHeader file with
    | .ok w => return (w, ← printLine line)
    | .error fault => return (w, .error fault)

end

/-- A step of a block. -/
inductive Step (ε : Type) where
  | write (line file : Text)
  /-- Something is raised, which ends the block and leaves it. It counts as true: the block swallows what does not. -/
  | raise (e : ε)

/-- How a block ends before all steps are done. -/
inductive Ending (ε : Type) where
  | fault (fault : FileFault)
  | raised (e : ε)

/-- The course of a block. -/
structure Course (ε : Type) where
  /-- The writer after each completed write. -/
  trail : List Writer := []
  last : Writer
  /-- What ended the block early. -/
  ending : Option (Ending ε) := none
  notices : List Notice := []

section

variable {m : Type → Type} [Monad m] [Surroundings m] {ε : Type}

open Surroundings

/-- Carries out steps until one ends the block. What was raised is raised again behind the block, as everything that
`Step.raise` stands for counts as true. -/
def runSteps : Writer → List (Step ε) → m (Course ε)
  | w, [] => return { last := w }
  | w, .raise e :: _ => return { last := w, ending := some (.raised e) }
  | w, .write line file :: rest => do
    let (w, result) ← w.write line file
    match result with
    | .error fault => return { last := w, ending := some (.fault fault) }
    | .ok _ =>
      let course ← runSteps w rest
      return { course with trail := w :: course.trail }

/-- Closes all files. -/
def closeAll (w : Writer) : m Unit := w.opened.forM fun file => closeFile (w.path file)

/-- Makes the folder, carries out the steps and closes all files. Without the folder nothing is done. -/
def run (w : Writer) (steps : List (Step ε)) : m (Course ε) := do
  if w.toFiles then
    match ← makeFolders w.folder with
    | .error fault => return { last := w, ending := some (.fault fault) }
    | .ok _ =>
      let course ← runSteps w steps
      closeAll course.last
      return { course with notices := [.outputWritten w.folder] }
  else runSteps w steps

end

end Writer

end ContractApi.Output
