import TypstFormat.Command.Run

/-!
# The program

The outermost layer: it opens files, hands their bytes to `Command.Run`, and writes what comes of
them.
-/

namespace TypstFormat.Program

/-- Why a file cannot be opened. -/
def fileError : IO.Error → FileError
  | .noFileOrDirectory .. => .notFound
  | .permissionDenied .. => .denied
  | .inappropriateType _ 21 _ => .isDirectory
  | .inappropriateType .. => .notDirectory
  | error => .other 5 (toString error)

/-- What the file holds that a path leads to. -/
def contents (path : Path) : IO (Except FileError (List UInt8)) := do
  try
    return .ok (← IO.FS.readBinFile path.text).toList
  catch error =>
    return .error (fileError error)

/-- The bytes of a text. -/
def bytes (text : List Char) : ByteArray :=
  (Text.Utf8.encode text).toByteArray

/-- Writes lines to the standard error. -/
def tell (messages : List String) : IO Unit := do
  for message in messages do
    IO.eprintln message

/-- The options of the first of some configuration files that can be opened. -/
def firstOptions : List Path → IO (Option (List Notice × Except ConfigError Options))
  | [] => return none
  | path :: paths => do
    match ← contents path with
    | .ok bytes => return some (ConfigFile.options path bytes)
    | .error _ => firstOptions paths

/-- The options for a run, and the notices about the configuration, which may come from a file that
is named. -/
def options (arguments : Arguments) (named : Option Path) :
    IO (List Notice × Except ConfigError Options) := do
  let directory ← IO.currentDir
  let start := Path.ofString directory.toString
  let found ← firstOptions (ConfigFile.sources named start)
  let (notices, result) := found.getD (ConfigFile.fallback named)
  return (notices, result.bind arguments.resolve)

/-- Writes what comes of an input, and tells whether it succeeded. -/
def record (file : Option Path) (outcome : Outcome) : IO Bool := do
  tell outcome.messages
  (← IO.getStdout).write (bytes outcome.printed)
  match file, outcome.saved with
  | some path, some text =>
    try
      IO.FS.writeBinFile path.text (bytes text)
      return outcome.succeeded
    catch error =>
      tell ["error: " ++ (fileError error).message path]
      return false
  | _, _ => return outcome.succeeded

/-- What comes of one input, and the file that belongs to it. -/
def outcome (arguments : Arguments) (options : Options) (name : String) :
    IO (Option Path × Except Fault Outcome) := do
  if name = Arguments.inputName then
    let input ← (← IO.getStdin).readBinToEnd
    return (none, arguments.processInput Notice.line options input.toList)
  else
    let path := Path.ofString name
    return (some path, arguments.processFile Notice.line options path (← contents path))

/-- Tells what broke off a run. -/
def tellFault (fault : Fault) : IO Unit :=
  tell ["error: " ++ fault.message?.getD "out of memory"]

/-- Processes inputs one after another, up to one that breaks off the run, and tells whether all
succeeded. -/
def steps (arguments : Arguments) (options : Options) : List String → IO Bool
  | [] => return true
  | name :: names => do
    match ← outcome arguments options name with
    | (_, .error fault) =>
      tellFault fault
      return false
    | (file, .ok outcome) =>
      let succeeded ← record file outcome
      return (← steps arguments options names) && succeeded

/-- Carries out a command line with the configuration file that it names, and gives the status. -/
def runWith (arguments : Arguments) (named : Option Path) : IO UInt32 := do
  let (notices, result) ← options arguments named
  tell (arguments.noticeLines Notice.line notices)
  match result with
  | .error error =>
    tell ["error: " ++ error.message]
    return 1
  | .ok options =>
    return if ← steps arguments options arguments.inputs then 0 else 1

/-- Carries out a command line, and gives the status. -/
def run (arguments : Arguments) : IO UInt32 := do
  match arguments.configPath with
  | .ok named => runWith arguments named
  | .error fault =>
    tellFault fault
    return 1

/-- How the program is called. -/
def usage : String :=
  "usage: typstfmt [-h] [--check] [--stdout] [--config CONFIG] [--indent-width INDENT_WIDTH] "
    ++ "[--max-line-length MAX_LINE_LENGTH] [-v] [paths ...]"

end TypstFormat.Program

open TypstFormat in
def main (arguments : List String) : IO UInt32 := do
  match Arguments.read arguments with
  | .ok arguments => Program.run arguments
  | .error .help =>
    IO.println Program.usage
    return 0
  | .error (.usage error) =>
    Program.tell [Program.usage, error.line]
    return 2
