import ContractApi.CommandLine.Flag
import ContractApi.CommandLine.Help
import ContractApi.Settings
/-!
# Arguments

The arguments of the command name one document and hold options in any order. An option may be abbreviated as long as it
is the only one that begins so, options of one letter may share a dash, and a value may be attached to its option. Behind
`--` no argument is an option, and an option to which `--` is attached has an empty list of values.

- `Word.ofArguments` tells options from values.
- `Reading.next` takes one word; `Arguments.parse` takes them all.
-/

namespace ContractApi.CommandLine

/-- What is wrong with arguments. -/
inductive UsageFault where
  | ambiguous (abbreviation : Text) (spellings : List Text)
  | missingValue (flag : Flag)
  | missingValues (flag : Flag)
  | needlessValue (flag : Flag) (value : Text)
  | notInteger (flag : Flag) (value : Text)
  | missingInput
  | unrecognized (words : List Text)
deriving DecidableEq, Repr

namespace UsageFault

/-- The wording of a fault that concerns one option. -/
def aboutFlag (flag : Flag) (text : Text) : Text := "argument " ++ flag.label ++ ": " ++ text

/-- The wording of a fault. -/
def message : UsageFault → Text
  | ambiguous abbreviation spellings =>
    "ambiguous option: " ++ abbreviation ++ " could match " ++ Text.joined ", " spellings
  | missingValue flag => aboutFlag flag "expected one argument"
  | missingValues flag => aboutFlag flag "expected at least one argument"
  | needlessValue flag value => aboutFlag flag ("ignored explicit argument " ++ value.quoted)
  | notInteger flag value => aboutFlag flag ("invalid int value: " ++ value.quoted)
  | missingInput => "the following arguments are required: abi"
  | unrecognized words => "unrecognized arguments: " ++ Text.joined " " words

end UsageFault

/-- How the command ends without doing its work. -/
inductive Exit where
  | help
  | version
  | misused (fault : UsageFault)
deriving DecidableEq, Repr

namespace Exit

def code : Exit → Nat
  | misused _ => 2
  | _ => 0

/-- What goes to the standard output. -/
def output : Exit → Text
  | help => helpText
  | version => versionText
  | misused _ => []

/-- What goes to the standard error output. -/
def errors : Exit → Text
  | misused fault => commandName ++ ": error: " ++ fault.message ++ "\n"
  | _ => []

end Exit

/-! ## Words -/

/-- An option as it is written. -/
structure Written where
  flag : Flag
  /-- Whether it is spelled with two dashes. -/
  isLong : Bool
  /-- What follows it in the same word, behind an equals sign if there is one. -/
  attached : Option Text := none
deriving DecidableEq, Repr

inductive Word where
  | value (text : Text)
  | option (written : Written)
  /-- A word that looks like an option and is none. -/
  | unknown (text : Text)
  /-- The word behind which there are only values. -/
  | separator
deriving DecidableEq, Repr

namespace Word

/-- The word behind which there are only values. -/
def separatorText : Text := "--"

/-- What stands before and behind the first equals sign. -/
def splitMark? (argument : Text) : Option (Text × Text) :=
  match argument.span fun c => c ≠ CodePoint.ofChar '=' with
  | (before, _ :: behind) => some (before, behind)
  | (_, []) => none

/-- What a word with two dashes can be an abbreviation of, with the spellings. -/
def longCompletions (argument : Text) : List (Text × Written) :=
  match splitMark? argument with
  | some (before, behind) =>
    (Flag.startingWith before).map fun (spelling, flag) => (spelling, ⟨flag, true, some behind⟩)
  | none => (Flag.startingWith argument).map fun (spelling, flag) => (spelling, ⟨flag, true, none⟩)

/-- What a word with one dash can begin with or be an abbreviation of, with the spellings. -/
def shortCompletions (argument : Text) : List (Text × Written) :=
  Flag.table.filterMap fun (spelling, flag) =>
    if spelling = argument.take 2 then some (spelling, ⟨flag, false, some (argument.drop 2)⟩)
    else if argument.isPrefixOf spelling then some (spelling, ⟨flag, false, none⟩)
    else none

/-- Whether a text consists of digits, and of at least one. -/
def isNumeral (text : Text) : Bool := !text.isEmpty && text.all fun c => c.digitValue?.isSome

/-- Whether what follows a dash makes it a negative number: digits, of which all or some may stand behind a point. A line
break may follow. -/
def isMagnitude (text : Text) : Bool :=
  let text := if text.getLast? = some (CodePoint.ofChar '\n') then text.dropLast else text
  let whole := text.takeWhile fun c => c ≠ CodePoint.ofChar '.'
  match text.drop whole.length with
  | [] => isNumeral whole
  | _ :: fraction => (whole.isEmpty || isNumeral whole) && isNumeral fraction

/-- What an argument is that is spelled like no option. -/
def ofUnspelled (argument : Text) (isLong : Bool) : Except UsageFault Word :=
  match if isLong then longCompletions argument else shortCompletions argument with
  | [(_, written)] => .ok (.option written)
  | [] =>
    if isMagnitude (argument.drop 1) || argument.contains (CodePoint.ofChar ' ') then .ok (.value argument)
    else .ok (.unknown argument)
  | several => .error (.ambiguous argument (several.map (·.1)))

/-- The option that is spelled in full, with or without a value behind an equals sign. -/
def spelled? (argument : Text) (isLong : Bool) : Option Written :=
  match Flag.ofSpelling? argument with
  | some flag => some ⟨flag, isLong, none⟩
  | none => do
    let (before, behind) ← splitMark? argument
    return ⟨← Flag.ofSpelling? before, isLong, some behind⟩

/-- What an argument is. A dash alone is a value. -/
def ofArgument : Text → Except UsageFault Word
  | c :: d :: rest =>
    if c = '-' then
      match spelled? (c :: d :: rest) (d = '-') with
      | some written => .ok (.option written)
      | none => ofUnspelled (c :: d :: rest) (d = '-')
    else .ok (.value (c :: d :: rest))
  | argument => .ok (.value argument)

def ofArguments : List Text → Except UsageFault (List Word)
  | [] => .ok []
  | argument :: rest =>
    if argument = separatorText then .ok (.separator :: rest.map .value)
    else do return (← ofArgument argument) :: (← ofArguments rest)

end Word

/-! ## Options that share a word -/

/-- What comes last in a word of options. -/
inductive Ending where
  | bare (flag : Flag)
  | given (flag : Flag) (value : Text)
deriving DecidableEq, Repr

/-- The options that share a word, of which the first is known. What is attached to an option that takes values is its
value, also if it begins with an equals sign. What is attached to one that takes none has to begin with the letter of
another option, and cannot if the first is spelled with two dashes. -/
def cluster (flag : Flag) (isLong : Bool) (attached : Text) : Except UsageFault (List Flag × Ending) :=
  match flag.arity, attached with
  | .none, [] => .error (.needlessValue flag [])
  | .none, c :: rest =>
    match if isLong then none else Flag.ofSpelling? ['-', c] with
    | none => .error (.needlessValue flag (c :: rest))
    | some next =>
      if rest.isEmpty then .ok ([flag], .bare next)
      else (cluster next false rest).map fun (flags, ending) => (flag :: flags, ending)
  | _, value => .ok ([], .given flag value)

/-- The options that share a word. -/
def Written.expand (written : Written) : Except UsageFault (List Flag × Ending) :=
  match written.attached with
  | none => .ok ([], .bare written.flag)
  | some attached => cluster written.flag written.isLong attached

/-! ## Reading words -/

/-- What the arguments ask for. -/
structure Arguments where
  input : Text
  options : Options

/-- An option whose values are being read. -/
structure Pending where
  /-- The options that share its word. -/
  before : List Flag
  flag : Flag
  values : List Text := []

structure Reading where
  input : Option Text := none
  /-- Whether the last word named the document. -/
  atInput : Bool := false
  options : Options := {}
  extras : List Text := []
  /-- The option that waits for values. -/
  pending : Option Pending := none

/-- The values of an option to which one is attached. The separator counts for none. -/
def attachedValues (value : Text) : List Text := if value = Word.separatorText then [] else [value]

/-- What an option that takes one value has for it: without a value, an empty list. -/
def soleValue : List Text → Value
  | [] => .list []
  | value :: _ => .text value

/-- The number that is an option's value. Without a value it is an empty list. -/
def soleNumber (flag : Flag) : List Text → Except Exit Value
  | [] => .ok (.list [])
  | value :: _ =>
    match Numeral.read value with
    | .ok n => .ok (.int n)
    | .error _ => .error (.misused (.notInteger flag value))

/-- The options after one more with its values. -/
def Flag.apply (flag : Flag) (values : List Text) (options : Options) : Except Exit Options :=
  match flag with
  | help => .error .help
  | version => .error .version
  | name => .ok { options with contractName := soleValue values }
  | strict => .ok { options with strict := true }
  | verbose => .ok { options with logLevel := some Level.info.rank }
  | veryVerbose => .ok { options with logLevel := some Level.debug.rank }
  | toFiles => .ok { options with toFiles := true }
  | indent => do return { options with indent := ← soleNumber .indent values }
  | skipEnvironmentFile => .ok { options with skipsEnvironmentFile := true }
  | output => .ok { options with outputs := some (options.outputs.getD [] ++ values) }
  | outputFolder => .ok { options with outputFolder := soleValue values }

namespace Reading

/-- Applies options without values, and then one with its values. -/
def apply (before : List Flag) (flag : Flag) (values : List Text) (r : Reading) : Except Exit Reading := do
  let options ← before.foldlM (fun options flag => flag.apply [] options) r.options
  return { r with options := ← flag.apply values options, pending := none }

/-- Completes the option that waits for values. -/
def settle (r : Reading) : Except Exit Reading :=
  match r.pending with
  | none => .ok r
  | some p =>
    match p.flag.arity, p.values with
    | .one, _ => .error (.misused (.missingValue p.flag))
    | .many, [] => .error (.misused (.missingValues p.flag))
    | _, values => r.apply p.before p.flag values

/-- Takes a value: an option may wait for it, or else the first one names the document. -/
def nextValue (text : Text) (r : Reading) : Except Exit Reading :=
  match r.pending with
  | some p =>
    if p.flag.arity = .one then r.apply p.before p.flag [text]
    else .ok { r with pending := some { p with values := p.values ++ [text] } }
  | none =>
    match r.input with
    | none => .ok { r with input := some text, atInput := true }
    | some _ => .ok { r with extras := r.extras ++ [text], atInput := false }

/-- Takes a word of options. -/
def nextOption (written : Written) (r : Reading) : Except Exit Reading :=
  match written.expand with
  | .error fault => .error (.misused fault)
  | .ok (before, ending) =>
    let r := { r with atInput := false }
    match ending with
    | .bare flag =>
      if flag.arity = .none then r.apply before flag [] else .ok { r with pending := some { before, flag } }
    | .given flag value => r.apply before flag (attachedValues value)

/-- Takes one word. A separator has no meaning of its own unless the document was named before, and not by the word in
front of it. -/
def next (r : Reading) : Word → Except Exit Reading
  | .value text => r.nextValue text
  | .option written => do nextOption written (← r.settle)
  | .unknown text => do
    let r ← r.settle
    return { r with extras := r.extras ++ [text], atInput := false }
  | .separator => do
    let r ← r.settle
    if r.input.isNone || r.atInput then return { r with atInput := false }
    else return { r with extras := r.extras ++ [Word.separatorText] }

/-- What was read when all words are taken. -/
def finish (r : Reading) : Except Exit Arguments := do
  let r ← r.settle
  match r.input, r.extras with
  | none, _ => .error (.misused .missingInput)
  | some input, [] => return { input, options := r.options }
  | some _, extras => .error (.misused (.unrecognized extras))

end Reading

/-- Reads the arguments of the command. -/
def Arguments.parse (arguments : List Text) : Except Exit Arguments :=
  match Word.ofArguments arguments with
  | .error fault => .error (.misused fault)
  | .ok words => do (← words.foldlM Reading.next {}).finish

end ContractApi.CommandLine
