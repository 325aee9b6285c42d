import MethodPatch.Json.Value

set_option autoImplicit false

namespace MethodPatch

namespace Literal

def hexDigit (value : Nat) : Char :=
  if value < 10 then Char.ofNat ('0'.toNat + value) else Char.ofNat ('a'.toNat + (value - 10))

/-- A character inside a literal. Quotes, backslashes and control characters are escaped, everything
else stands for itself. -/
def escape (letter : Char) : List Char :=
  match letter with
  | '"' => ['\\', '"']
  | '\\' => ['\\', '\\']
  | '\n' => ['\\', 'n']
  | '\r' => ['\\', 'r']
  | '\t' => ['\\', 't']
  | '\x08' => ['\\', 'b']
  | '\x0c' => ['\\', 'f']
  | _ =>
      if letter.toNat < 0x20 then
        ['\\', 'u', '0', '0', hexDigit (letter.toNat / 16), hexDigit (letter.toNat % 16)]
      else [letter]

/-- A literal between its quotes. One that stands for no text is written as half a pair. -/
def write (content : Option String) : List Char :=
  match content with
  | some text => '"' :: text.toList.flatMap escape ++ ['"']
  | none => ['"', '\\', 'u', 'd', '8', '0', '0', '"']

end Literal

namespace Numeral

def write (numeral : Numeral) : List Char :=
  (if numeral.negative then ['-'] else []) ++ Nat.toDigits 10 numeral.whole ++
    (if numeral.fraction.isEmpty then [] else '.' :: numeral.fraction) ++
    match numeral.exponent with
    | none => []
    | some (negative, power) =>
        'e' :: (if negative then ['-'] else []) ++ Nat.toDigits 10 power

end Numeral

namespace Json

/-- The blanks of a written form: those before each part of a container that stands so deep, and
those after a colon. -/
structure Spacing where
  before : Nat → List Char
  afterColon : List Char

/-- No blanks at all. -/
def Spacing.compact : Spacing := ⟨fun _ => [], []⟩

/-- A line for each part, indented by two blanks a level. -/
def Spacing.pretty : Spacing := ⟨fun level => '\n' :: List.replicate (2 * level) ' ', [' ']⟩

mutual

def write (spacing : Spacing) (level : Nat) : Json → List Char
  | .null => ['n', 'u', 'l', 'l']
  | .bool true => ['t', 'r', 'u', 'e']
  | .bool false => ['f', 'a', 'l', 's', 'e']
  | .number numeral => numeral.write
  | .string content => Literal.write content
  | .array [] => ['[', ']']
  | .array (item :: rest) =>
      '[' :: (spacing.before (level + 1) ++ write spacing (level + 1) item ++
        writeItems spacing level rest)
  | .object [] => ['{', '}']
  | .object ((key, value) :: rest) =>
      '{' :: (spacing.before (level + 1) ++ (Literal.write key ++
        ':' :: (spacing.afterColon ++ write spacing (level + 1) value)) ++
          writeMembers spacing level rest)

/-- The items after the first, and the end of the array. -/
def writeItems (spacing : Spacing) (level : Nat) : List Json → List Char
  | [] => spacing.before level ++ [']']
  | item :: rest =>
      ',' :: (spacing.before (level + 1) ++ write spacing (level + 1) item ++
        writeItems spacing level rest)

/-- The members after the first, and the end of the object. -/
def writeMembers (spacing : Spacing) (level : Nat) : List (Option String × Json) → List Char
  | [] => spacing.before level ++ ['}']
  | (key, value) :: rest =>
      ',' :: (spacing.before (level + 1) ++ (Literal.write key ++
        ':' :: (spacing.afterColon ++ write spacing (level + 1) value)) ++
          writeMembers spacing level rest)

end

/-- The value on one line. -/
def compact (value : Json) : String := String.ofList (value.write .compact 0)

/-- The value with a line for each part. -/
def pretty (value : Json) : String := String.ofList (value.write .pretty 0)

end Json

end MethodPatch
