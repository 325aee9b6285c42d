import MethodPatch.Json.Value

set_option autoImplicit false

namespace MethodPatch.Json

variable {α : Type}

def asText : Json → Option String
  | .string content => content
  | _ => none

def asFlag : Json → Option Bool
  | .bool value => some value
  | _ => none

def asByte : Json → Option UInt8
  | .number numeral =>
      match numeral.natural? with
      | some value => if value < UInt8.size then some (UInt8.ofNat value) else none
      | none => none
  | _ => none

def asWord : Json → Option UInt32
  | .number numeral =>
      match numeral.natural? with
      | some value => if value < UInt32.size then some (UInt32.ofNat value) else none
      | none => none
  | _ => none

def asList (read : Json → Option α) : Json → Option (List α)
  | .array items => items.mapM read
  | _ => none

/-- A value, or null for none. -/
def asOption (read : Json → Option α) : Json → Option (Option α)
  | .null => some none
  | value => (read value).map some

/-- One of several words. A word may also be the key of an object whose one value is null. -/
def asWordOf (words : List (String × α)) : Json → Option α
  | .string (some word) => words.lookup word
  | .object [(some word, .null)] => words.lookup word
  | _ => none

/-- A value under the name of its kind: an object of one member. -/
def asTagged : Json → Option (String × Json)
  | .object [(some tag, value)] => some (tag, value)
  | _ => none

def ofFlag (value : Bool) : Json := .bool value

def ofByte (value : UInt8) : Json := ofNat value.toNat

def ofWord (value : UInt32) : Json := ofNat value.toNat

def ofList (write : α → Json) (values : List α) : Json := .array (values.map write)

def ofOption (write : α → Json) : Option α → Json
  | some value => write value
  | none => .null

def ofTagged (tag : String) (value : Json) : Json := ofMembers [(tag, value)]

@[simp] theorem asText_ofText (content : String) : asText (ofText content) = some content := rfl

@[simp] theorem asFlag_ofFlag (value : Bool) : asFlag (ofFlag value) = some value := rfl

@[simp] theorem asByte_ofByte (value : UInt8) : asByte (ofByte value) = some value := by
  have small : value.toNat < UInt8.size := value.toNat_lt
  simp [asByte, ofByte, ofNat, small]

@[simp] theorem asWord_ofWord (value : UInt32) : asWord (ofWord value) = some value := by
  have small : value.toNat < UInt32.size := value.toNat_lt
  simp [asWord, ofWord, ofNat, small]

theorem asList_ofList_map (read : Json → Option α) (write : α → Json) (kept : α → α)
    (back : ∀ value, read (write value) = some (kept value)) (values : List α) :
    asList read (ofList write values) = some (values.map kept) := by
  simp only [asList, ofList]
  induction values with
  | nil => rfl
  | cons value rest ih => simp [back, ih]

theorem asList_ofList (read : Json → Option α) (write : α → Json)
    (back : ∀ value, read (write value) = some value) (values : List α) :
    asList read (ofList write values) = some values := by
  rw [asList_ofList_map read write (fun value => value) back, List.map_id']

/-- A written value is never taken for none, if it is not null. -/
theorem asOption_ofOption (read : Json → Option α) (write : α → Json)
    (back : ∀ value, read (write value) = some value) (solid : ∀ value, write value ≠ .null)
    (value : Option α) : asOption read (ofOption write value) = some value := by
  cases value with
  | none => rfl
  | some content =>
      have given := back content
      have notNull := solid content
      cases written : write content <;> simp_all [asOption, ofOption]

/-- What stands for a field of a record. -/
inductive Slot where
  | given (value : Json)
  /-- The object has no member of the field's key. -/
  | omitted
  /-- The array ends before the field. -/
  | cutOff

namespace Slot

/-- A field that has to stand. -/
def required (read : Json → Option α) : Slot → Option α
  | .given value => read value
  | .omitted | .cutOff => none

/-- A field that may be left out. -/
def orElse (absent : α) (read : Json → Option α) : Slot → Option α
  | .given value => read value
  | .omitted | .cutOff => some absent

/-- A field that may be null or left out. -/
def optional (read : Json → Option α) (slot : Slot) : Option (Option α) :=
  slot.orElse none (asOption read)

/-- A field that may be null, and may be left out of an object but not of an array. -/
def nullable (read : Json → Option α) : Slot → Option (Option α)
  | .given value => asOption read value
  | .omitted => some none
  | .cutOff => none

end Slot

/-- The keys of a record in the order of its fields, and whether others are refused. What is written
by hand refuses them as misspellings; a dump passes over them. -/
structure Record where
  keys : List String
  closed : Bool

namespace Record

/-- The members of an object that have this key. -/
def membersOf (members : List (Option String × Json)) (key : String) :
    List (Option String × Json) :=
  members.filter fun member => member.1 == some key

/-- Every key is a text, none of the record's keys is repeated, and a closed record meets no key
but its own. -/
def admits (record : Record) (members : List (Option String × Json)) : Bool :=
  (members.all fun member => member.1.isSome) &&
    (record.keys.all fun key => (membersOf members key).length ≤ 1) &&
    (!record.closed || members.all fun member => member.1.any (· ∈ record.keys))

def memberSlot (members : List (Option String × Json)) (key : String) : Slot :=
  match membersOf members key with
  | (_, value) :: _ => .given value
  | [] => .omitted

def itemSlot (keys : List String) (items : List Json) (key : String) : Slot :=
  match items[keys.idxOf key]? with
  | some value => .given value
  | none => .cutOff

/-- What stands for each field, if the value can be such a record at all. -/
def slots? (record : Record) : Json → Option (String → Slot)
  | .object members => if record.admits members then some (memberSlot members) else none
  | .array items =>
      if items.length ≤ record.keys.length then some (itemSlot record.keys items) else none
  | _ => none

end Record

end MethodPatch.Json
