import MethodPatch.Json.Numeral

set_option autoImplicit false

namespace MethodPatch

inductive Json where
  | null
  | bool (value : Bool)
  | number (numeral : Numeral)
  /-- A string literal; nothing where an escape in it has no partner. -/
  | string (content : Option String)
  | array (items : List Json)
  | object (members : List (Option String × Json))

namespace Json

def ofText (content : String) : Json := .string (some content)

def ofNat (value : Nat) : Json := .number (Numeral.ofNat value)

/-- An object whose keys are given as texts. -/
def ofMembers (members : List (String × Json)) : Json :=
  .object (members.map fun (key, value) => (some key, value))

mutual

/-- The value has a meaning throughout: every literal is a text, every number is finite, and no
more than `levels` containers stand inside one another. -/
def isSound (levels : Nat) : Json → Bool
  | .null => true
  | .bool _ => true
  | .number numeral => numeral.isFinite
  | .string content => content.isSome
  | .array items => levels != 0 && areSound (levels - 1) items
  | .object members => levels != 0 && membersAreSound (levels - 1) members

def areSound (levels : Nat) : List Json → Bool
  | [] => true
  | item :: rest => isSound levels item && areSound levels rest

def membersAreSound (levels : Nat) : List (Option String × Json) → Bool
  | [] => true
  | (key, value) :: rest => key.isSome && isSound levels value && membersAreSound levels rest

end

end Json

end MethodPatch
