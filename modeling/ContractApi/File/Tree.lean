import ContractApi.File.Fault
import ContractApi.File.Path
import ContractApi.Table
import ContractApi.Text.Utf8
/-!
# Trees of files

A `Tree` holds files and folders by their locations and has a working folder, at which relative paths start.

- `Tree.locate` finds the location to which a path leads; every name on the way has to be a folder's.
- `Tree.read`, `Tree.makeFolders`, `Tree.openFile` and `Tree.overwrite` are what can be done with a path. Opening a file
  empties it.
-/

namespace ContractApi

/-- The names on the way from the root. -/
abbrev Location := List Text

/-- What can be at a location. -/
inductive Entry where
  | file (content : List UInt8)
  | folder
deriving DecidableEq, Repr

/-- Files and folders, and the folder at which relative paths start. -/
structure Tree where
  /-- What is where, apart from the root, which is a folder. -/
  entries : Table Location Entry
  here : Location

namespace Tree

def at? (tree : Tree) (location : Location) : Option Entry :=
  if location.isEmpty then some .folder else Table.get? location tree.entries

/-- The tree with something else at a location. -/
def put (tree : Tree) (location : Location) (entry : Entry) : Tree :=
  { tree with entries := Table.insert location entry tree.entries }

/-- The most bytes that a name may have. -/
def maxNameBytes : Nat := 255

/-- The most bytes that a path may have. -/
def maxPathBytes : Nat := 4095

/-- Surrogates that stand for single bytes in paths. -/
def isByteSurrogate (c : CodePoint) : Bool := 0xDC80 ≤ c.val && c.val ≤ 0xDCFF

def pathBytes (c : CodePoint) : List UInt8 :=
  if isByteSurrogate c then [.ofNat (c.val - 0xDC00)] else Text.encodePoint c

/-- How many bytes a text takes in a path. -/
def byteCount (text : Text) : Nat := (text.flatMap pathBytes).length

def follow (tree : Tree) (location : Location) (name : Text) : Except FileFault.Cause Location :=
  match tree.at? location with
  | none => .error .missing
  | some (.file _) => .error .notFolder
  | some .folder =>
    if name.isEmpty || name = "." then .ok location
    else if name = ".." then .ok location.dropLast
    else if maxNameBytes < byteCount name then .error .nameTooLong
    else .ok (location ++ [name])

/-- The location to which a path leads. There need not be anything there. -/
def locate (tree : Tree) (path : Text) : Except FileFault.Cause Location :=
  if path.isEmpty then .error .missing
  else if maxPathBytes < byteCount path then .error .nameTooLong
  else (Path.names path).foldlM tree.follow (if Path.isAbsolute path then [] else tree.here)

/-- What a path leads to. -/
def status? (tree : Tree) (path : Text) : Option Entry := (tree.locate path).toOption.bind tree.at?

/-- Whether a code point cannot stand in a path. -/
def isUnencodable (c : CodePoint) : Bool := c.isSurrogate && !isByteSurrogate c

/-- Makes sure that a text can be a path. -/
def checkPath (path : Text) : Except FileFault Unit :=
  match path.refusal? isUnencodable with
  | some (start, stop) => .error (.unencodable path start stop)
  | none => if path.any fun c => c.val = 0 then .error .endsEarly else .ok ()

/-- A step on a path, of which a fault names the path. -/
def onPath {α : Type} (path : Text) (step : Except FileFault.Cause α) : Except FileFault α := do
  checkPath path
  step.mapError fun cause => .refused cause path

/-- Whether there is something. -/
def isThere (tree : Tree) (path : Text) : Bool := (checkPath path).isOk && (tree.status? path).isSome

def isFolder (tree : Tree) (path : Text) : Bool := (checkPath path).isOk && tree.status? path = some .folder

/-- The bytes of a file. -/
def read (tree : Tree) (path : Text) : Except FileFault (List UInt8) :=
  onPath path do
    match tree.at? (← tree.locate path) with
    | none => .error .missing
    | some .folder => .error .isFolder
    | some (.file content) => .ok content

/-- Makes a folder where nothing is. -/
def makeFolder (tree : Tree) (path : Text) : Except FileFault Tree :=
  onPath path do
    let location ← tree.locate path
    match tree.at? location with
    | some _ => .error .alreadyThere
    | none => .ok (tree.put location .folder)

/-- The folders above a path that are not there, the nearest one first. Not more than `levels` are looked for. -/
def missingAbove (tree : Tree) : (levels : Nat) → (path : Text) → List Text
  | 0, _ => []
  | levels + 1, path =>
    match Path.parent? path with
    | none => []
    | some parent => if tree.isThere parent then [] else parent :: missingAbove tree levels parent

/-- Makes folders one after the other; one that is there already will do. The result is the tree, the folders that were
made, and whether all are there. -/
def makeEach : Tree → List Text → Tree × List Text × Except FileFault Unit
  | tree, [] => (tree, [], .ok ())
  | tree, path :: rest =>
    match tree.makeFolder path with
    | .ok tree =>
      let (tree, made, result) := makeEach tree rest
      (tree, path :: made, result)
    | .error fault => if tree.isFolder path then makeEach tree rest else (tree, [], .error fault)

/-- Makes a folder and those above it that are missing. -/
def makeFolders (tree : Tree) (path : Text) : Tree × List Text × Except FileFault Unit :=
  tree.makeEach (path :: tree.missingAbove path.length path).reverse

/-- Opens a file for writing, which makes it or empties it. A path that ends in a slash can only be a folder's. -/
def openFile (tree : Tree) (path : Text) : Except FileFault Tree :=
  onPath path do
    let location ← tree.locate (if Path.endsInSlash path then Path.parent path else path)
    if Path.endsInSlash path then .error .isFolder
    else
      match tree.at? location with
      | some .folder => .error .isFolder
      | _ => .ok (tree.put location (.file []))

/-- Writes bytes to the beginning of a file. What the file holds beyond them stays. -/
def overwrite (tree : Tree) (path : Text) (bytes : List UInt8) : Tree :=
  match tree.locate path with
  | .ok location =>
    match tree.at? location with
    | some (.file content) => tree.put location (.file (bytes ++ content.drop bytes.length))
    | _ => tree
  | .error _ => tree

/-- The tree with a file, and with the folders above it. -/
def withFile (tree : Tree) (location : Location) (content : List UInt8) : Tree :=
  let folders := (List.range (location.length - 1)).map fun n => location.take (n + 1)
  (folders.foldl (fun tree folder => tree.put folder .folder) tree).put location (.file content)

/-- The files below the working folder, by the locations that lead to them from there. -/
def files (tree : Tree) : List (Location × List UInt8) :=
  tree.entries.filterMap fun (location, entry) =>
    match entry with
    | .file content =>
      if tree.here.isPrefixOf location then some (location.drop tree.here.length, content) else none
    | .folder => none

/-- The location to which a path leads from a folder if it never leads upwards. -/
def descent (path : Text) : Location := (Path.names path).filter fun name => !name.isEmpty && name ≠ "."

/-- The tree that has nothing but files, by their paths from the working folder. -/
def ofFiles (files : List (Text × List UInt8)) : Tree :=
  let here : Location := ["work"]
  let bare : Tree := ⟨[(here, .folder)], here⟩
  files.foldl (fun tree (path, content) => tree.withFile (here ++ descent path) content) bare

end Tree

end ContractApi
