import ContractApi.Text.Basic
/-!
# The options of the command

Each option has one or more spellings and takes no value, one value, or one or more.

- `Flag.ofSpelling?` finds the option that is written in full; `Flag.startingWith` those whose spelling is abbreviated.
-/

namespace ContractApi.CommandLine

/-- The options. -/
inductive Flag where
  | help
  | version
  | name
  | strict
  | verbose
  | veryVerbose
  | toFiles
  | indent
  | skipEnvironmentFile
  | output
  /-- The folder for all output. -/
  | outputFolder
deriving DecidableEq, Repr

/-- How many values an option takes. -/
inductive Arity where
  | none
  | one
  | many
deriving DecidableEq, Repr

namespace Flag

/-- The options in the order in which they are described. -/
def all : List Flag :=
  [help, version, name, strict, verbose, veryVerbose, toFiles, indent, skipEnvironmentFile, output, outputFolder]

/-- How an option can be written. -/
def spellings : Flag → List Text
  | help => ["-h", "--help"]
  | version => ["--version"]
  | name => ["-n", "--name"]
  | strict => ["-s", "--strict"]
  | verbose => ["-v", "--verbose"]
  | veryVerbose => ["-vv", "--very-verbose"]
  | toFiles => ["-f", "--tofile"]
  | indent => ["--indent"]
  | skipEnvironmentFile => ["--nodotenv"]
  | output => ["--output"]
  | outputFolder => ["--output_dir"]

/-- How many values an option takes. -/
def arity : Flag → Arity
  | name | indent | outputFolder => .one
  | output => .many
  | _ => .none

/-- The option with all its spellings, as errors name it. -/
def label (flag : Flag) : Text := Text.joined "/" flag.spellings

/-- All spellings with the options they stand for. -/
def table : List (Text × Flag) := all.flatMap fun flag => flag.spellings.map fun spelling => (spelling, flag)

def ofSpelling? (spelling : Text) : Option Flag := (table.find? fun row => row.1 = spelling).map (·.2)

/-- The spellings that an abbreviation can be completed to. -/
def startingWith (abbreviation : Text) : List (Text × Flag) := table.filter fun row => abbreviation.isPrefixOf row.1

end Flag

end ContractApi.CommandLine
