import ContractApi.File.Tree
/-!
# What a program deals with

A program deals with its surroundings only through `Surroundings`: files, the standard input, two streams of output, a
clock, and the room for nested calls. It can therefore be run in a `World`, in which all of them are values.

- Both streams of output are UTF-8. What the standard output does not take is not printed at all, which is a fault; the
  standard error output shows escapes instead and takes everything.
- A `World` has a `Capacity`, which says what the streams take and how much room there is.
-/

namespace ContractApi

/-- What a program can do to its surroundings. -/
class Surroundings (m : Type → Type) where
  /-- The bytes of a file. -/
  readFile (path : Text) : m (Except FileFault (List UInt8))
  /-- The text of the standard input. -/
  readInput : m (Except Text.DecodeFault Text)
  /-- Makes a folder and those above it that are missing. -/
  makeFolders (path : Text) : m (Except FileFault Unit)
  /-- Opens a file for writing, empty. -/
  openFile (path : Text) : m (Except FileFault Unit)
  /-- Writes bytes to an open file, behind those written before. -/
  extendFile (path : Text) (bytes : List UInt8) : m Unit
  /-- Closes an open file. What was written to it is there now, if not before. -/
  closeFile (path : Text) : m Unit
  /-- Writes to the standard output all of a text or nothing. -/
  print (text : Text) : m (Except FileFault Unit)
  /-- Writes to the standard error output. -/
  printError (text : Text) : m Unit
  /-- Reports to the standard error output that a line for the standard output is lost. -/
  reportLost (line : Text) : m Unit
  /-- The time, as it is written in front of a notice. -/
  clock : m Text
  /-- How many levels of lists and objects there is room for when a document is read. -/
  levels : m Nat

/-- What was done to files and folders. -/
inductive Act where
  /-- A folder was made. -/
  | madeFolder (path : Text)
  /-- A file was opened for writing. -/
  | opened (path : Text)
  /-- Bytes were written to a file. -/
  | extended (path : Text) (bytes : List UInt8)
  /-- A file was closed. -/
  | closed (path : Text)
deriving DecidableEq, Repr

/-- What surroundings can take. -/
structure Capacity where
  /-- How many levels of lists and objects there is room for when a document is read. -/
  levels : Nat := 991
  /-- The surrogates that the standard output does not take. -/
  refused : CodePoint → Bool := fun _ => false
  /-- The surrogates that the standard error output shows as escapes. -/
  escaped : CodePoint → Bool := fun _ => false
  /-- What the standard error output says about a lost line. It shows where the line comes from, so that one line may be
  reported in different ways, each after something else was written there. -/
  lossReport (errors line : Text) : Text := "--- Logging error ---\n"

namespace Capacity

/-- Whether the standard output does not take a code point. -/
def refuses (capacity : Capacity) (c : CodePoint) : Bool := c.isSurrogate && capacity.refused c

/-- Whether the standard output takes a text. -/
def Takes (capacity : Capacity) (text : Text) : Prop := ∀ c ∈ text, capacity.refuses c = false

instance (capacity : Capacity) (text : Text) : Decidable (capacity.Takes text) :=
  inferInstanceAs (Decidable (∀ c ∈ text, capacity.refuses c = false))

/-- A code point as the standard error output shows it. -/
def escape (capacity : Capacity) (c : CodePoint) : Text :=
  if c.isSurrogate && capacity.escaped c then c.numericEscape else [c]

end Capacity

/-- Surroundings that are values. -/
structure World where
  /-- Files and folders. -/
  tree : Tree
  /-- The text of the standard input. -/
  input : Text := []
  /-- The time, which stands still. -/
  time : Text := "TIME"
  /-- What was written to the standard output. -/
  output : Text := []
  /-- What was written to the standard error output. -/
  errors : Text := []
  /-- What was written to each open file. It goes to the beginning of the file when that is closed. -/
  written : Table Text (List UInt8) := []
  /-- What was done to files and folders, in order. -/
  acts : List Act := []
  /-- What the streams take and how much room there is. -/
  capacity : Capacity := {}

namespace World

/-- What was written to an open file. -/
def writtenTo (w : World) (path : Text) : List UInt8 := (Table.get? path w.written).getD []

instance : Surroundings (StateM World) where
  readFile path := fun w => (w.tree.read path, w)
  readInput := fun w => (.ok w.input, w)
  makeFolders path := fun w =>
    let (tree, made, result) := w.tree.makeFolders path
    (result, { w with tree, acts := w.acts ++ made.map .madeFolder })
  openFile path := fun w =>
    match w.tree.openFile path with
    | .ok tree =>
      (.ok (), { w with tree, written := Table.insert path [] w.written, acts := w.acts ++ [.opened path] })
    | .error fault => (.error fault, w)
  extendFile path bytes := fun w =>
    let written := Table.insert path (w.writtenTo path ++ bytes) w.written
    ((), { w with written, acts := w.acts ++ [.extended path bytes] })
  closeFile path := fun w =>
    ((), { w with tree := w.tree.overwrite path (w.writtenTo path), acts := w.acts ++ [.closed path] })
  print text := fun w =>
    match text.refusal? w.capacity.refuses with
    | none => (.ok (), { w with output := w.output ++ text })
    | some (start, stop) => (.error (.unencodable text start stop), w)
  printError text := fun w => ((), { w with errors := w.errors ++ text.flatMap w.capacity.escape })
  reportLost line := fun w => ((), { w with errors := w.errors ++ w.capacity.lossReport w.errors line })
  clock := fun w => (w.time, w)
  levels := fun w => (w.capacity.levels, w)

end World

end ContractApi
