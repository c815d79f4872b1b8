import TypstFormat.Command.Arguments
import TypstFormat.Config.File
import TypstFormat.Layout.Document
import TypstFormat.Text.LineColumn
import TypstFormat.Text.Padding

/-!
# Carrying out a command line

Every file that is named is formatted in place, printed, or only checked, one after another. A file
that cannot be opened, or that has errors, does not keep the others from being processed, but makes
the status 1. A `World` is what a run depends on and what it leaves behind; the steps that only
decide, such as `Arguments.process`, do not know of it.
-/

namespace TypstFormat

/-- What breaks off a run. -/
inductive Fault where
  /-- A file, or the standard input, holds bytes that are no text. -/
  | undecodable (error : Text.Utf8Error)
  /-- A name that no file can have. -/
  | nullCharacter
  /-- The flag for the configuration file was given nothing. -/
  | noConfigName
  | format (error : FormatError)
  deriving DecidableEq, Repr

namespace Fault

/-- The message of a fault, if it has one. -/
def message? : Fault → Option String
  | undecodable error => some error.message
  | nullCharacter => some "embedded null byte"
  | noConfigName => some "the configuration file has no name"
  | format error => error.message?

end Fault

/-- What comes of one input. -/
structure Outcome where
  succeeded : Bool
  /-- What is written to the standard output. -/
  printed : List Char := []
  /-- The lines that are written to the standard error. -/
  messages : List String := []
  /-- What the file is to hold from now on, if that is something else. -/
  saved : Option (List Char) := none
  deriving DecidableEq, Repr

/-- A diagnostic as one line, for a source that has a label. -/
def Diagnostic.line (label : String) (source : List Char) (d : Diagnostic) : String :=
  let (line, column) := Text.lineColumn source d.range.start
  s!"{label}:{line}:{column}: {d.severity.name}[{d.code}] {d.message}"

/-- The value of a setting that a flag asks for. A flag that is given nothing asks for no integer. -/
def Given.toSetting : Given Int → Value
  | value number => .int number
  | nothing => .array []

namespace Arguments

/-- The name that stands for the standard input. -/
def inputName : String := "-"

/-- How messages name the standard input. -/
def inputLabel : String := "<stdin>"

/-- The names of the inputs. If none is given, this is the standard input. -/
def inputs (arguments : Arguments) : List String :=
  if arguments.names = [] then [inputName] else arguments.names

/-- Whether a notice is shown. Warnings always are, and each step of verbosity adds a level. -/
def shows (arguments : Arguments) (notice : Notice) : Bool :=
  Level.warning.rank ≤ notice.level.rank + arguments.verbosity

/-- The lines of the notices that are shown, given how a notice is written. -/
def noticeLines (arguments : Arguments) (line : Notice → String) (notices : List Notice) :
    List String :=
  (notices.filter arguments.shows).map line

/-- The name of the configuration file, if there is one. -/
def configPath (arguments : Arguments) : Except Fault (Option Path) :=
  match arguments.config with
  | none => .ok none
  | some (.value path) => .ok (some path)
  | some .nothing => .error .noConfigName

/-- Settings with those in place that the command line asks for. -/
def override (arguments : Arguments) (settings : Settings) : Settings :=
  let settings :=
    match arguments.indentWidth with
    | some width => settings.put .indentWidth width.toSetting
    | none => settings
  match arguments.maxLineLength with
  | some length => settings.put .maxLineLength length.toSetting
  | none => settings

/-- The options of a configuration, changed as the command line asks for. -/
def resolve (arguments : Arguments) (options : Options) : Except ConfigError Options :=
  (arguments.override options.toSettings).toOptions.mapError .options

/-- Processes a text. If it belongs to a file that may be changed, the formatted text is saved, else
it is printed. A text with errors is left alone. -/
def process (arguments : Arguments) (line : Notice → String) (options : Options) (label : String)
    (file : Option Path) (text : List Char) : Except FormatError Outcome := do
  let formatted ← format text options
  let parsed := formatted.parsed
  let messages := arguments.noticeLines line formatted.notices
    ++ parsed.diagnostics.map fun d => d.line label text
  if parsed.hasErrors then
    return { succeeded := false, messages }
  else if arguments.check then
    if formatted.isCanonical then
      return { succeeded := true, messages }
    else
      return { succeeded := false, printed := s!"would reformat {label}\n".toList, messages }
  else
    match file with
    | none => return { succeeded := true, printed := formatted.text, messages }
    | some path =>
      if formatted.text = text then
        return { succeeded := true, messages }
      else
        return {
          succeeded := true
          messages := messages ++ arguments.noticeLines line [.reformatted path.text]
          saved := some formatted.text }

/-- Processes what the standard input holds. -/
def processInput (arguments : Arguments) (line : Notice → String) (options : Options)
    (bytes : List UInt8) : Except Fault Outcome := do
  let text ← (Text.Utf8.decode bytes).mapError .undecodable
  (arguments.process line options inputLabel none (Text.unifyLineEnds text)).mapError .format

/-- Processes what a file holds, or tells that it cannot be opened. -/
def processFile (arguments : Arguments) (line : Notice → String) (options : Options) (path : Path)
    (contents : Except FileError (List UInt8)) : Except Fault Outcome := do
  if path.text.contains '\x00' then
    throw .nullCharacter
  else
    match contents with
    | .error error => return { succeeded := false, messages := ["error: " ++ error.message path] }
    | .ok bytes =>
      let text ← (Text.Utf8.decode bytes).mapError .undecodable
      let file := if arguments.stdout then none else some path
      (arguments.process line options path.text file (Text.unifyLineEnds text)).mapError .format

end Arguments

/-- How a fact is shown. -/
def Fact.describe : Fact → String
  | number value => toString value
  | flag true => "True"
  | flag false => "False"
  | text value => value

/-- A notice as the library that writes them does, but for the time. -/
def Notice.line (notice : Notice) : String :=
  let level := Text.padRight 9 notice.level.name
  let event := Text.padRight 30 notice.event
  let facts := " ".intercalate (notice.facts.map fun (name, fact) => s!"{name}={fact.describe}")
  s!"[{level}] {event} {facts}"

/-- What a run depends on and what it leaves behind. -/
structure World where
  store : Store
  /-- How a notice is written, which is up to a library. -/
  line : Notice → String := Notice.line
  /-- What the standard input still holds. -/
  input : List UInt8 := []
  /-- What has been written to the standard output. -/
  output : List Char := []
  /-- The lines that have been written to the standard error. -/
  messages : List String := []

namespace World

/-- Writes lines to the standard error. -/
def tell (world : World) (messages : List String) : World :=
  { world with messages := world.messages ++ messages }

/-- Writes what comes of an input. -/
def record (world : World) (outcome : Outcome) : World :=
  { world.tell outcome.messages with output := world.output ++ outcome.printed }

/-- Processes one input. The standard input can be read once. -/
def step (world : World) (arguments : Arguments) (options : Options) (name : String) :
    Except Fault (Bool × World) := do
  if name = Arguments.inputName then
    let outcome ← arguments.processInput world.line options world.input
    return (outcome.succeeded, { world.record outcome with input := [] })
  else
    let path := Path.ofString name
    let outcome ← arguments.processFile world.line options path (world.store.read path)
    let store :=
      match outcome.saved with
      | some text => world.store.write path (Text.Utf8.encode text)
      | none => world.store
    return (outcome.succeeded, { world.record outcome with store })

/-- Processes inputs one after another, and tells whether all succeeded. -/
def steps (world : World) (arguments : Arguments) (options : Options) :
    List String → Except Fault (Bool × World)
  | [] => .ok (true, world)
  | name :: names => do
    let (succeeded, world) ← world.step arguments options name
    let (others, world) ← world.steps arguments options names
    return (succeeded && others, world)

/-- The options for a run, and the notices about the configuration, which may come from a file that
is named. -/
def options (world : World) (arguments : Arguments) (named : Option Path) :
    List Notice × Except ConfigError Options :=
  let (notices, result) := ConfigFile.load world.store named world.store.workingPath
  (notices, result.bind arguments.resolve)

/-- Carries out a command line, and gives the status. -/
def run (world : World) (arguments : Arguments) : Except Fault (Nat × World) := do
  let (notices, result) := world.options arguments (← arguments.configPath)
  let world := world.tell (arguments.noticeLines world.line notices)
  match result with
  | .error error => return (1, world.tell ["error: " ++ error.message])
  | .ok options =>
    let (succeeded, world) ← world.steps arguments options arguments.inputs
    return (if succeeded then 0 else 1, world)

end World

end TypstFormat
