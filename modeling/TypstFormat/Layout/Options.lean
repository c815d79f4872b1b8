import TypstFormat.Config.Value

/-!
# Options

What the layout may be told: how wide an indentation is, and how long a line may get. Both numbers
are positive, which `Options` carries as proofs. `Settings` are the values that were asked for, and
`Settings.toOptions` checks them.
-/

namespace TypstFormat

structure Options where
  /-- How many spaces an argument on a line of its own is set in by. -/
  indentWidth : Nat := 2
  /-- The length from which on a list of arguments is broken into lines. -/
  maxLineLength : Nat := 80
  indentWidth_pos : 0 < indentWidth := by decide
  maxLineLength_pos : 0 < maxLineLength := by decide
  deriving Repr

/-- The options by themselves. -/
inductive Setting where
  | indentWidth
  | maxLineLength
  deriving DecidableEq, Repr

def Setting.name : Setting → String
  | indentWidth => "indent_width"
  | maxLineLength => "max_line_length"

/-- A value that was asked for and is not a positive integer. -/
structure OptionsError where
  setting : Setting
  value : Value
  deriving Repr

def OptionsError.message (error : OptionsError) : String :=
  s!"Invalid value for '{error.setting.name}': expected positive int, got {error.value.describe}."

/-- The values that were asked for. -/
structure Settings where
  indentWidth : Value := .int 2
  maxLineLength : Value := .int 80
  deriving Repr

namespace Settings

/-- Asks for another value of one option. -/
def put (settings : Settings) : Setting → Value → Settings
  | .indentWidth, value => { settings with indentWidth := value }
  | .maxLineLength, value => { settings with maxLineLength := value }

end Settings

/-- The positive number that a value stands for. -/
def Value.positive? : Value → Option { n : Nat // 0 < n }
  | .int (.ofNat (n + 1)) => some ⟨n + 1, Nat.succ_pos n⟩
  | _ => Option.none

namespace Settings

/-- The options that were asked for. The indentation is checked first. -/
def toOptions (settings : Settings) : Except OptionsError Options :=
  match settings.indentWidth.positive? with
  | none => .error ⟨.indentWidth, settings.indentWidth⟩
  | some ⟨indentWidth, indentWidth_pos⟩ =>
    match settings.maxLineLength.positive? with
    | none => .error ⟨.maxLineLength, settings.maxLineLength⟩
    | some ⟨maxLineLength, maxLineLength_pos⟩ =>
      .ok { indentWidth, maxLineLength, indentWidth_pos, maxLineLength_pos }

end Settings

/-- The settings that ask for given options. -/
def Options.toSettings (options : Options) : Settings where
  indentWidth := .int options.indentWidth
  maxLineLength := .int options.maxLineLength

/-- Asking for options gives them. -/
theorem Settings.toOptions_toSettings (options : Options) :
    options.toSettings.toOptions = .ok options := by
  obtain ⟨n, m, hn, hm⟩ := options
  cases n with
  | zero => omega
  | succ n =>
    cases m with
    | zero => omega
    | succ m => rfl

end TypstFormat
