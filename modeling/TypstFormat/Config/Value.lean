import TypstFormat.Text.Quoted

/-!
# Values of settings

A setting may be given any value at first, and the message about a wrong one shows it. `Value` is
the type of what can be given, `typeName` says what sort of value one is, and `describe` shows it.
-/

namespace TypstFormat

inductive Value where
  | none
  | bool (value : Bool)
  | int (value : Int)
  /-- A number with a fraction or an exponent, as it is shown. -/
  | float (text : String)
  | string (value : String)
  | array (items : List Value)
  | table (entries : List (String × Value))
  deriving Repr

namespace Value

def typeName : Value → String
  | none => "NoneType"
  | bool _ => "bool"
  | int _ => "int"
  | float _ => "float"
  | string _ => "str"
  | array _ => "list"
  | table _ => "dict"

mutual

/-- How a value is shown. -/
def describe : Value → String
  | none => "None"
  | bool true => "True"
  | bool false => "False"
  | int value => toString value
  | float text => text
  | string value => Text.quotedString value
  | array items => "[" ++ ", ".intercalate (describeItems items) ++ "]"
  | table entries => "\x7b" ++ ", ".intercalate (describeEntries entries) ++ "\x7d"

def describeItems : List Value → List String
  | [] => []
  | item :: items => describe item :: describeItems items

def describeEntries : List (String × Value) → List String
  | [] => []
  | (key, value) :: entries =>
    (Text.quotedString key ++ ": " ++ describe value) :: describeEntries entries

end

end Value

end TypstFormat
