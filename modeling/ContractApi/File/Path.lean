import ContractApi.Text.Basic
/-!
# Paths

A path is a text in which slashes separate the names.

- `Path.joined` is the path of a name below a folder.
- `Path.names` are the names on the way; between two slashes there is an empty one.
- `Path.parent?` is the path of the folder that holds what a path leads to, if the path shows it.
-/

namespace ContractApi.Path

/-- Whether a code point separates names. -/
def isSlash (c : CodePoint) : Bool := c = '/'

/-- Whether a path starts at the root. -/
def isAbsolute (path : Text) : Bool := path.head?.any isSlash

def endsInSlash (path : Text) : Bool := path.getLast?.any isSlash

/-- The path that leads to `name` from `folder`; an absolute name stays as it is. -/
def joined (folder name : Text) : Text :=
  if isAbsolute name then name
  else if folder.isEmpty || endsInSlash folder then folder ++ name
  else folder ++ "/" ++ name

/-- The names on the way, from left to right. -/
def names : Text → List Text
  | [] => [[]]
  | c :: rest =>
    if isSlash c then [] :: names rest
    else
      match names rest with
      | [] => [[c]]
      | name :: more => (c :: name) :: more

/-- The path without the slashes at its end. -/
def withoutSlashes (path : Text) : Text := (path.reverse.dropWhile isSlash).reverse

/-- The part of a path up to its last name, without slashes at its end unless it consists of them. -/
def parent (path : Text) : Text :=
  let head := (path.reverse.dropWhile fun c => !isSlash c).reverse
  if head.all isSlash then head else withoutSlashes head

/-- The folder in which the last name of a path is to be found, if both can be told apart. -/
def parent? (path : Text) : Option Text :=
  let base := if endsInSlash path then parent path else path
  let head := parent base
  if head.isEmpty || endsInSlash base then none else some head

end ContractApi.Path
