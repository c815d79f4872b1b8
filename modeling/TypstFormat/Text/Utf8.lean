/-!
# Bytes of a text

`Utf8.decode` reads the characters that a sequence of bytes stands for in UTF-8. Only the shortest
form of a scalar value is read. If there is a flaw, `Utf8Error` says at which bytes: at those that
begin a character, up to the first that cannot belong to it.
-/

namespace TypstFormat.Text

/-- What is wrong with a sequence of bytes. -/
inductive Utf8Flaw where
  /-- No character begins with this byte. -/
  | start
  /-- A character is broken off by a byte that cannot belong to it. -/
  | continuation
  /-- The bytes end within a character. -/
  | ending
  deriving DecidableEq, Repr

def Utf8Flaw.reason : Utf8Flaw → String
  | start => "invalid start byte"
  | continuation => "invalid continuation byte"
  | ending => "unexpected end of data"

/-- The first flaw of a sequence of bytes. -/
structure Utf8Error where
  flaw : Utf8Flaw
  /-- The offset of the first byte in question. -/
  offset : Nat
  /-- The first byte in question. -/
  first : UInt8
  /-- How many bytes follow it. -/
  more : Nat := 0
  deriving DecidableEq, Repr

def Utf8Error.message (error : Utf8Error) : String :=
  let place :=
    if error.more = 0 then
      let digits := Nat.toDigits 16 error.first.toNat
      s!"byte 0x{String.ofList digits} in position {error.offset}"
    else
      let last := error.offset + error.more
      s!"bytes in position {error.offset}-{last}"
  "'utf-8' codec can't decode " ++ place ++ ": " ++ error.flaw.reason

namespace Utf8

/-- How many bytes follow the first one of a character. -/
def followers? (first : UInt8) : Option Nat :=
  if first < 0x80 then some 0
  else if first < 0xC2 then none
  else if first < 0xE0 then some 1
  else if first < 0xF0 then some 2
  else if first < 0xF5 then some 3
  else none

/-- Whether a byte may be the second one of a character. Some are left out behind the least and the
greatest first bytes: they would give longer forms, surrogates, or numbers beyond the last scalar
value. -/
def isSecond (first byte : UInt8) : Bool :=
  let least := if first = 0xE0 then 0xA0 else if first = 0xF0 then 0x90 else 0x80
  let greatest := if first = 0xED then 0x9F else if first = 0xF4 then 0x8F else 0xBF
  least ≤ byte && byte ≤ greatest

/-- Whether a byte may be the third or the fourth one of a character. -/
def isLater (byte : UInt8) : Bool :=
  0x80 ≤ byte && byte ≤ 0xBF

/-- Those of the bytes behind a first one that may belong to its character. -/
def fitting (first : UInt8) : List UInt8 → List UInt8
  | [] => []
  | second :: later => if isSecond first second then second :: later.takeWhile isLater else []

/-- The character that a first byte and the bytes behind it stand for. The first byte of a longer
form has a mark of its own length, and the others hold six bits each. -/
def character (first : UInt8) (others : List UInt8) : Char :=
  let high :=
    match others.length with
    | 0 => first.toNat
    | n => first.toNat % Nat.pow 2 (6 - n)
  Char.ofNat (others.foldl (fun value byte => value * 64 + byte.toNat % 64) high)

/-- The characters of bytes that start at an offset. -/
def decodeFrom (offset : Nat) : List UInt8 → Except Utf8Error (List Char)
  | [] => .ok []
  | first :: rest =>
    match followers? first with
    | none => .error { flaw := .start, offset, first }
    | some count =>
      let others := fitting first (rest.take count)
      if others.length = count then
        (decodeFrom (offset + count + 1) (rest.drop count)).map (character first others :: ·)
      else
        let flaw := if others.length = rest.length then .ending else .continuation
        .error { flaw, offset, first, more := others.length }
termination_by bytes => bytes.length
decreasing_by simp only [List.length_drop, List.length_cons]; omega

/-- The characters that bytes stand for. -/
def decode (bytes : List UInt8) : Except Utf8Error (List Char) :=
  decodeFrom 0 bytes

/-- The bytes that stand for a text. -/
def encode (text : List Char) : List UInt8 :=
  text.flatMap String.utf8EncodeChar

end Utf8

end TypstFormat.Text
