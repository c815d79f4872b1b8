import TypstFormat.Config.Toml.Document
import TypstFormat.File.Store
import TypstFormat.Layout.Notice
import TypstFormat.Layout.Options
import TypstFormat.Text.LineEnds
import TypstFormat.Text.Utf8

/-!
# The configuration file

Options come from a file that is named or else from the nearest `typstfmt.toml` in a directory or
above it; without a file they are the default ones. Each entry of the file asks for one option, a
later one of the same option wins, and a notice tells of an entry that asks for none.
-/

namespace TypstFormat

/-- Why a configuration file gives no options. -/
inductive ConfigError where
  | notFound (path : Path)
  | undecodable (error : Text.Utf8Error)
  | malformed (path : Path)
  /-- An integer with too many digits. -/
  | longInteger (digits : Nat)
  | notInteger (key : String) (path : Path) (value : Value)
  | options (error : OptionsError)
  deriving Repr

namespace ConfigError

def message : ConfigError → String
  | notFound path => s!"Config file not found: {path.text}"
  | undecodable error => error.message
  | malformed path => s!"Invalid TOML in {path.text}"
  | longInteger digits =>
    s!"Exceeds the limit ({Number.maxDigits} digits) for integer string conversion: "
      ++ s!"value has {digits} digits; use sys.set_int_max_str_digits() to increase the limit"
  | notInteger key path value =>
    s!"Invalid value for '{key}' in {path.text}: expected int, got {value.typeName} "
      ++ s!"({value.describe})."
  | options error => error.message

end ConfigError

/-- The option that a key of the file asks for. -/
def Setting.ofKey? : String → Option Setting
  | "indent_space" | "indent_width" => some .indentWidth
  | "max_line_length" => some .maxLineLength
  | _ => none

/-- Every option has a key of its own name. -/
theorem Setting.ofKey?_name (setting : Setting) : Setting.ofKey? setting.name = some setting := by
  cases setting <;> rfl

namespace ConfigFile

/-- The name of a configuration file that need not be named. -/
def name : String := "typstfmt.toml"

/-- The files that are looked for, in order: in a directory, and then in those above it. -/
def candidates (start : Path) : List Path :=
  (start :: start.parents).map (·.child name)

/-- The file that is found first. -/
def find? (store : Store) (start : Path) : Option Path :=
  (candidates start).find? store.isFile

/-- The settings that entries ask for, on top of others. The notices are those up to the first
entry that is wrong. -/
def settings (path : Path) : Toml.Table → Settings → List Notice × Except ConfigError Settings
  | [], settings => ([], .ok settings)
  | (key, value) :: entries, settings =>
    match Setting.ofKey? key, value with
    | none, _ =>
      let (notices, result) := ConfigFile.settings path entries settings
      (.unknownKey key path.text :: notices, result)
    | some setting, .int _ => ConfigFile.settings path entries (settings.put setting value)
    | some _, _ => ([], .error (.notInteger key path value))

/-- The entries of a file that holds some bytes. -/
def table (path : Path) (bytes : List UInt8) : Except ConfigError Toml.Table := do
  let text ← (Text.Utf8.decode bytes).mapError .undecodable
  (Toml.read (Text.unifyLineEnds text)).mapError fun
    | .malformed => .malformed path
    | .longInteger digits => .longInteger digits

/-- The options that a file asks for, and the notices about its entries. -/
def options (path : Path) (bytes : List UInt8) : List Notice × Except ConfigError Options :=
  match table path bytes with
  | .error error => ([], .error error)
  | .ok entries =>
    let (notices, result) := settings path entries {}
    (notices, result.bind fun settings => settings.toOptions.mapError .options)

/-- The files that options may come from: the one that is named, or else those that are looked for
around a directory. -/
def sources (named : Option Path) (start : Path) : List Path :=
  match named with
  | some path => [path]
  | none => candidates start

/-- What the options are if there is no such file. -/
def fallback (named : Option Path) : List Notice × Except ConfigError Options :=
  match named with
  | some path => ([], .error (.notFound path))
  | none => ([], .ok {})

/-- The options of the first file that they may come from. -/
def load (store : Store) (named : Option Path) (start : Path) :
    List Notice × Except ConfigError Options :=
  let found := (sources named start).findSome? fun path =>
    (store.read path).toOption.map (options path)
  found.getD (fallback named)

end ConfigFile

/-- The path of the working directory. -/
def Store.workingPath (store : Store) : Path where
  anchor := .top
  parts := store.workingDirectory

end TypstFormat
