import MethodPatch.Json.Value

set_option autoImplicit false

namespace MethodPatch

def isBlank (letter : Char) : Bool :=
  letter == ' ' || letter == '\t' || letter == '\n' || letter == '\r'

def skipBlanks (text : List Char) : List Char := text.dropWhile isBlank

namespace Numeral

/-- Digits that may stand before a point: no zero in front of others. -/
def isWhole (digits : List Char) : Bool :=
  match digits with
  | [] => false
  | ['0'] => true
  | first :: _ => first != '0'

/-- The digits after a point; nothing where no point stands. -/
def readFraction (text : List Char) : Option (List Char × List Char) :=
  match text with
  | '.' :: rest =>
      let digits := rest.takeWhile Char.isDigit
      if digits.isEmpty then none else some (digits, rest.dropWhile Char.isDigit)
  | _ => some ([], text)

def readPower (negative : Bool) (text : List Char) :
    Option (Option (Bool × Nat) × List Char) :=
  let digits := text.takeWhile Char.isDigit
  if digits.isEmpty then none
  else some (some (negative, Nat.ofDigitChars 10 digits 0), text.dropWhile Char.isDigit)

def readExponent (text : List Char) : Option (Option (Bool × Nat) × List Char) :=
  match text with
  | letter :: rest =>
      if letter == 'e' || letter == 'E' then
        match rest with
        | '-' :: rest => readPower true rest
        | '+' :: rest => readPower false rest
        | _ => readPower false rest
      else some (none, text)
  | [] => some (none, [])

def readUnsigned (negative : Bool) (text : List Char) : Option (Numeral × List Char) :=
  let digits := text.takeWhile Char.isDigit
  if isWhole digits then
    match readFraction (text.dropWhile Char.isDigit) with
    | none => none
    | some (fraction, rest) =>
        match readExponent rest with
        | none => none
        | some (exponent, rest) =>
            some (⟨negative, Nat.ofDigitChars 10 digits 0, fraction, exponent⟩, rest)
  else none

def read (text : List Char) : Option (Numeral × List Char) :=
  match text with
  | '-' :: rest => readUnsigned true rest
  | _ => readUnsigned false text

end Numeral

namespace Literal

/-- The value of a hexadecimal digit of either case. -/
def digitValue (letter : Char) : Option Nat :=
  if '0' ≤ letter ∧ letter ≤ '9' then some (letter.toNat - '0'.toNat)
  else if 'a' ≤ letter ∧ letter ≤ 'f' then some (letter.toNat - 'a'.toNat + 10)
  else if 'A' ≤ letter ∧ letter ≤ 'F' then some (letter.toNat - 'A'.toNat + 10)
  else none

/-- What a letter stands for after a backslash. -/
def escaped (letter : Char) : Option Nat :=
  match letter with
  | '"' => some '"'.toNat
  | '\\' => some '\\'.toNat
  | '/' => some '/'.toNat
  | 'b' => some 0x08
  | 'f' => some 0x0c
  | 'n' => some 0x0a
  | 'r' => some 0x0d
  | 't' => some 0x09
  | _ => none

/-- Where in a literal a reader is. -/
inductive Place where
  | plain
  /-- Behind a backslash. -/
  | escape
  /-- Inside a numeric escape: `left` digits follow the next one, and `value` is that of the digits
  before it. -/
  | digits (left : Nat) (value : Nat)
deriving DecidableEq, Repr

/-- Reads up to the closing quote. A character gives its code point and an escape its code unit;
`units` holds those before, last first. -/
def readUnits (place : Place) (units : List Nat) : List Char → Option (List Nat × List Char)
  | [] => none
  | letter :: rest =>
      match place with
      | .plain =>
          if letter = '"' then some (units.reverse, rest)
          else if letter = '\\' then readUnits .escape units rest
          else if letter.toNat < 0x20 then none
          else readUnits .plain (letter.toNat :: units) rest
      | .escape =>
          if letter = 'u' then readUnits (.digits 3 0) units rest
          else
            match escaped letter with
            | some unit => readUnits .plain (unit :: units) rest
            | none => none
      | .digits left value =>
          match digitValue letter with
          | none => none
          | some digit =>
              match left with
              | 0 => readUnits .plain ((value * 16 + digit) :: units) rest
              | left + 1 => readUnits (.digits left (value * 16 + digit)) units rest

def isHighSurrogate (unit : Nat) : Bool := 0xd800 ≤ unit && unit < 0xdc00

def isLowSurrogate (unit : Nat) : Bool := 0xdc00 ≤ unit && unit < 0xe000

/-- The character of a high and a low surrogate. -/
def pair (high low : Nat) : Char :=
  Char.ofNat (0x10000 + (high - 0xd800) * 0x400 + (low - 0xdc00))

/-- The characters of a sequence of units: a high surrogate and the low one after it are one
character, and neither stands alone. `high` is a high surrogate that waits for the low one, and
`letters` holds the characters before, last first. -/
def joinUnits (high : Option Nat) (letters : List Char) : List Nat → Option (List Char)
  | [] => if high.isSome then none else some letters.reverse
  | unit :: rest =>
      match high with
      | some first =>
          if isLowSurrogate unit then joinUnits none (pair first unit :: letters) rest else none
      | none =>
          if isHighSurrogate unit then joinUnits (some unit) letters rest
          else if isLowSurrogate unit then none
          else joinUnits none (Char.ofNat unit :: letters) rest

/-- Reads a literal whose opening quote is already read. -/
def read (text : List Char) : Option (Option String × List Char) :=
  match readUnits .plain [] text with
  | some (units, rest) => some ((joinUnits none [] units).map String.ofList, rest)
  | none => none

end Literal

namespace Json

mutual

/-- Reads one value and gives the text after it. `fuel` bounds the steps. -/
def readValue : Nat → List Char → Option (Json × List Char)
  | 0, _ => none
  | fuel + 1, text =>
      match skipBlanks text with
      | '{' :: rest =>
          match skipBlanks rest with
          | '}' :: rest => some (.object [], rest)
          | rest => readMembers fuel [] rest
      | '[' :: rest =>
          match skipBlanks rest with
          | ']' :: rest => some (.array [], rest)
          | rest => readItems fuel [] rest
      | '"' :: rest =>
          match Literal.read rest with
          | some (content, rest) => some (.string content, rest)
          | none => none
      | 'n' :: 'u' :: 'l' :: 'l' :: rest => some (.null, rest)
      | 't' :: 'r' :: 'u' :: 'e' :: rest => some (.bool true, rest)
      | 'f' :: 'a' :: 'l' :: 's' :: 'e' :: rest => some (.bool false, rest)
      | text =>
          match Numeral.read text with
          | some (numeral, rest) => some (.number numeral, rest)
          | none => none

/-- Reads the items of an array up to its end; `items` holds those before, last first. -/
def readItems : Nat → List Json → List Char → Option (Json × List Char)
  | 0, _, _ => none
  | fuel + 1, items, text =>
      match readValue fuel text with
      | none => none
      | some (item, rest) =>
          match skipBlanks rest with
          | ',' :: rest => readItems fuel (item :: items) rest
          | ']' :: rest => some (.array (item :: items).reverse, rest)
          | _ => none

/-- Reads the members of an object up to its end; `members` holds those before, last first. -/
def readMembers : Nat → List (Option String × Json) → List Char → Option (Json × List Char)
  | 0, _, _ => none
  | fuel + 1, members, text =>
      match skipBlanks text with
      | '"' :: rest =>
          match Literal.read rest with
          | none => none
          | some (key, rest) =>
              match skipBlanks rest with
              | ':' :: rest =>
                  match readValue fuel rest with
                  | none => none
                  | some (value, rest) =>
                      match skipBlanks rest with
                      | ',' :: rest => readMembers fuel ((key, value) :: members) rest
                      | '}' :: rest => some (.object ((key, value) :: members).reverse, rest)
                      | _ => none
              | _ => none
      | _ => none

end

/-- The value that a text spells, if it spells one. Two steps for each character are enough: every
step but one in two moves on in the text. -/
def read? (text : String) : Option Json :=
  let letters := text.toList
  match readValue (2 * letters.length + 2) letters with
  | some (value, rest) => if (skipBlanks rest).isEmpty then some value else none
  | none => none

/-- The deepest nesting of containers that a file may have. -/
def deepest : Nat := 127

/-- The value that the bytes of a file spell. It has to have a meaning throughout, also where nobody
asks for it. -/
def readFile? (content : List UInt8) : Option Json :=
  match String.fromUTF8? ⟨content.toArray⟩ with
  | none => none
  | some text => (read? text).filter (isSound deepest)

end Json

end MethodPatch
