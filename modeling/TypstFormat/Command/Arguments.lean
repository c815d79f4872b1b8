import TypstFormat.File.Path
import TypstFormat.Number.Integer
import TypstFormat.Text.Quoted

/-!
# Arguments of the command line

The arguments name files and give flags. A long flag may be cut short as long as one flag remains
that it can mean, and may have its value behind an equals sign. Short flags may share a dash, and all
letters behind one dash must be flags. Behind two dashes all arguments name files, and files are
named in one run, with no flag between them.

Arguments are read in three steps. `Word.ofArgument` tells flags from files, `Flag.cluster` takes
apart flags that share a dash, and `Invocation.take` goes through the words one by one.
-/

namespace TypstFormat

/-- What the command line can be told. -/
inductive Flag where
  | help
  | check
  | stdout
  | config
  | indentWidth
  | maxLineLength
  | verbose
  deriving DecidableEq, Repr

namespace Flag

/-- The spellings of the flags, in the order in which they are listed. -/
def spellings : List (String × Flag) :=
  [("-h", help), ("--help", help), ("--check", check), ("--stdout", stdout), ("--config", config),
    ("--indent-width", indentWidth), ("--max-line-length", maxLineLength), ("-v", verbose),
    ("--verbose", verbose)]

/-- How messages name a flag: by all its spellings. -/
def title (flag : Flag) : String :=
  "/".intercalate ((spellings.filter fun spelling => spelling.2 = flag).map Prod.fst)

/-- The flag with a spelling. -/
def ofSpelling? (text : List Char) : Option Flag :=
  spellings.lookup (String.ofList text)

/-- Whether a flag comes with a value. -/
def takesValue : Flag → Bool
  | config | indentWidth | maxLineLength => true
  | help | check | stdout | verbose => false

end Flag

/-- What is wrong with a command line. -/
inductive UsageError where
  | ambiguous (argument : String) (spellings : List String)
  | missingValue (flag : Flag)
  | notInteger (flag : Flag) (value : String)
  /-- A value was given for a flag that takes none. -/
  | ignoredValue (flag : Flag) (value : String)
  | unrecognized (arguments : List String)
  deriving DecidableEq, Repr

def UsageError.message : UsageError → String
  | ambiguous argument spellings =>
    s!"ambiguous option: {argument} could match " ++ ", ".intercalate spellings
  | missingValue flag => s!"argument {flag.title}: expected one argument"
  | notInteger flag value =>
    s!"argument {flag.title}: invalid int value: " ++ Text.quotedString value
  | ignoredValue flag value =>
    s!"argument {flag.title}: ignored explicit argument " ++ Text.quotedString value
  | unrecognized arguments => "unrecognized arguments: " ++ " ".intercalate arguments

/-- How the program tells of a usage error. -/
def UsageError.line (error : UsageError) : String :=
  "typstfmt: error: " ++ error.message

/-- What a flag is given. Two dashes separate and are never a value, so a flag that is given only
them is given nothing. -/
inductive Given (α : Type) where
  | value (a : α)
  | nothing
  deriving DecidableEq, Repr

/-- What a command line asks for. -/
structure Arguments where
  /-- The names of the files, in order. -/
  names : List String := []
  check : Bool := false
  stdout : Bool := false
  config : Option (Given Path) := none
  indentWidth : Option (Given Int) := none
  maxLineLength : Option (Given Int) := none
  /-- How often more notices were asked for. -/
  verbosity : Nat := 0
  deriving DecidableEq, Repr

/-- The argument behind which all others name files. -/
def Arguments.separator : String := "--"

/-- An argument by itself. -/
inductive Word where
  | plain (argument : String)
  /-- Two dashes: all that follow are plain. -/
  | separator
  /-- A flag, and what stands behind an equals sign in its argument. -/
  | flag (flag : Flag) (value : Option (List Char))
  /-- A flag of one letter, and what its argument holds besides. -/
  | cluster (flag : Flag) (letters : List Char)
  /-- An argument with a dash that is no flag. -/
  | unknown (argument : String)
  deriving DecidableEq, Repr

/-- The characters in front of the first equals sign, and those behind it. -/
def splitAtEquals (text : List Char) : List Char × Option (List Char) :=
  match text.span (· ≠ '=') with
  | (name, []) => (name, none)
  | (name, _ :: value) => (name, some value)

/-- Whether an argument is a negative number, and so cannot be a flag. -/
def isNegativeNumber : List Char → Bool
  | '-' :: text =>
    let text := if text.getLast? = some '\n' then text.dropLast else text
    let isDigit (c : Char) : Bool := (Text.decimalDigit? c).isSome
    match text.dropWhile isDigit with
    | [] => text ≠ []
    | '.' :: decimals => decimals ≠ [] && decimals.all isDigit
    | _ => false
  | _ => false

namespace Word

/-- The flags that an argument with a dash may mean, with their spellings. -/
def readings (text : List Char) : List (String × Word) :=
  match text with
  | '-' :: '-' :: _ =>
    let (name, value) := splitAtEquals text
    (Flag.spellings.filter fun spelling => name.isPrefixOf spelling.1.toList).map
      fun spelling => (spelling.1, .flag spelling.2 value)
  | _ =>
    (Flag.spellings.filter fun spelling => spelling.1.toList = text.take 2).map
      fun spelling => (spelling.1, .cluster spelling.2 (text.drop 2))

/-- The word for an argument that spells out a flag, by itself or in front of an equals sign. Behind
a single dash the equals sign only sets off more letters. -/
def spelled? (text : List Char) : Option Word :=
  match Flag.ofSpelling? text, splitAtEquals text with
  | some spelled, _ => some (.flag spelled none)
  | none, (_, none) => none
  | none, (name, some value) =>
    (Flag.ofSpelling? name).map fun spelled =>
      if name.length = 2 then .cluster spelled value else .flag spelled (some value)

/-- The word for an argument in front of a separator. -/
def ofArgument (argument : String) : Except UsageError Word :=
  let text := argument.toList
  if text.head? ≠ some '-' ∨ text.length = 1 then
    .ok (.plain argument)
  else
    match spelled? text, readings text with
    | some word, _ => .ok word
    | none, _ :: _ :: _ => .error (.ambiguous argument ((readings text).map Prod.fst))
    | none, [(_, word)] => .ok word
    | none, [] =>
      if isNegativeNumber text ∨ text.contains ' ' then .ok (.plain argument)
      else .ok (.unknown argument)

/-- The words for arguments. -/
def ofArguments : List String → Except UsageError (List Word)
  | [] => .ok []
  | argument :: arguments =>
    if argument = Arguments.separator then
      .ok (.separator :: arguments.map .plain)
    else do
      let word ← ofArgument argument
      return word :: (← ofArguments arguments)

end Word

/-- The flags that share a dash: `flag`, and those for the letters behind it, of which there is at
least one. The message about a wrong letter names the flag in front of it. -/
def Flag.cluster (flag : Flag) : List Char → Except UsageError (List Flag)
  | [] => .error (.ignoredValue flag "")
  | letter :: letters =>
    match Flag.ofSpelling? ['-', letter] with
    | none => .error (.ignoredValue flag (String.ofList (letter :: letters)))
    | some next =>
      if letters = [] then
        .ok [flag, next]
      else
        return flag :: (← next.cluster letters)

/-- Why a command line is not carried out. -/
inductive Refusal where
  /-- Help was asked for. -/
  | help
  | usage (error : UsageError)
  deriving DecidableEq, Repr

/-- Where the names of files are. -/
inductive NamesPhase where
  | ahead
  | now
  | behind
  deriving DecidableEq, Repr

/-- A command line that is being read. -/
structure Invocation where
  arguments : Arguments := {}
  phase : NamesPhase := .ahead
  /-- The arguments that mean nothing, the latest first. -/
  unrecognized : List String := []
  deriving Repr

namespace Invocation

/-- The phase behind a flag. -/
def pass : NamesPhase → NamesPhase
  | .ahead => .ahead
  | .now | .behind => .behind

/-- Notes an argument that means nothing. -/
def reject (invocation : Invocation) (argument : String) : Invocation :=
  { invocation with
    phase := pass invocation.phase
    unrecognized := argument :: invocation.unrecognized }

/-- Takes the name of a file. Behind the run of names it means nothing. -/
def name (invocation : Invocation) (argument : String) : Invocation :=
  match invocation.phase with
  | .behind => invocation.reject argument
  | .ahead | .now =>
    { invocation with
      phase := .now
      arguments.names := invocation.arguments.names ++ [argument] }

/-- Takes a separator. -/
def separate (invocation : Invocation) : Invocation :=
  match invocation.phase with
  | .behind => invocation.reject Arguments.separator
  | .ahead | .now => { invocation with phase := .now }

/-- Takes a flag without a value. -/
def apply (invocation : Invocation) (flag : Flag) : Except Refusal Invocation :=
  let invocation := { invocation with phase := pass invocation.phase }
  match flag with
  | .help => .error .help
  | .check => .ok { invocation with arguments.check := true }
  | .stdout => .ok { invocation with arguments.stdout := true }
  | .verbose =>
    .ok { invocation with arguments.verbosity := invocation.arguments.verbosity + 1 }
  | .config | .indentWidth | .maxLineLength => .error (.usage (.missingValue flag))

/-- What a value gives to a flag, if `read` understands it. -/
def given (read : String → Except Refusal α) (value : String) : Except Refusal (Given α) :=
  if value = Arguments.separator then .ok .nothing else (read value).map .value

/-- Reads a value that has to be an integer. -/
def integer (flag : Flag) (value : String) : Except Refusal Int :=
  match Number.integer? value.toList with
  | some number => .ok number
  | none => .error (.usage (.notInteger flag value))

/-- Takes a flag with its value. -/
def give (invocation : Invocation) (flag : Flag) (value : String) : Except Refusal Invocation := do
  let invocation := { invocation with phase := pass invocation.phase }
  match flag with
  | .config =>
    let path ← given (fun value => .ok (Path.ofString value)) value
    return { invocation with arguments.config := some path }
  | .indentWidth =>
    let number ← given (integer flag) value
    return { invocation with arguments.indentWidth := some number }
  | .maxLineLength =>
    let number ← given (integer flag) value
    return { invocation with arguments.maxLineLength := some number }
  | .help | .check | .stdout | .verbose => throw (.usage (.ignoredValue flag value))

/-- Takes flags without values, one after another. -/
def applyAll (invocation : Invocation) : List Flag → Except Refusal Invocation
  | [] => .ok invocation
  | flag :: flags => do (← invocation.apply flag).applyAll flags

/-- Takes words one by one. -/
def take (invocation : Invocation) : List Word → Except Refusal Invocation
  | [] => .ok invocation
  | .plain argument :: words => (invocation.name argument).take words
  | .separator :: words => invocation.separate.take words
  | .unknown argument :: words => (invocation.reject argument).take words
  | .flag flag (some value) :: words => do
    (← invocation.give flag (String.ofList value)).take words
  | .cluster flag letters :: words => do
    let flags ← (flag.cluster letters).mapError .usage
    (← invocation.applyAll flags).take words
  | [.flag flag none] => invocation.apply flag
  | .flag flag none :: word :: words => do
    if flag.takesValue then
      match word with
      | .plain value => (← invocation.give flag value).take words
      | _ => throw (.usage (.missingValue flag))
    else
      (← invocation.apply flag).take (word :: words)

end Invocation

/-- What a command line asks for, if it is understood as a whole. -/
def Arguments.read (arguments : List String) : Except Refusal Arguments := do
  let words ← (Word.ofArguments arguments).mapError .usage
  let invocation ← ({} : Invocation).take words
  match invocation.unrecognized.reverse with
  | [] => return invocation.arguments
  | unrecognized => throw (.usage (.unrecognized unrecognized))

end TypstFormat
