import MethodPatch.Json.Record
import MethodPatch.Matching.Finder

set_option autoImplicit false

namespace MethodPatch

open Json

namespace ExpressionKind

def words : List (String × ExpressionKind) := all.map fun kind => (kind.label, kind)

def toJson (kind : ExpressionKind) : Json := ofText kind.label

def ofJson? (value : Json) : Option ExpressionKind := asWordOf words value

@[simp] theorem ofJson?_toJson (kind : ExpressionKind) : ofJson? kind.toJson = some kind := by
  cases kind <;> decide

end ExpressionKind

namespace FieldAccess

def label : FieldAccess → String
  | .read => "read"
  | .write => "write"

def words : List (String × FieldAccess) :=
  [.read, .write].map fun access => (label access, access)

def toJson (access : FieldAccess) : Json := ofText access.label

def ofJson? (value : Json) : Option FieldAccess := asWordOf words value

@[simp] theorem ofJson?_toJson (access : FieldAccess) : ofJson? access.toJson = some access := by
  cases access <;> decide

end FieldAccess

namespace Criteria

def record : Record := ⟨["kind", "owner", "name", "descriptor", "access"], true⟩

/-- What is left open is not written. -/
def toJson (criteria : Criteria) : Json :=
  ofMembers ([("kind", criteria.kind.toJson)] ++
    criteria.owner.toList.map (fun owner => ("owner", ofText owner)) ++
    criteria.name.toList.map (fun name => ("name", ofText name)) ++
    criteria.descriptor.toList.map (fun descriptor => ("descriptor", ofText descriptor)) ++
    criteria.access.toList.map (fun access => ("access", access.toJson)))

def ofJson? (value : Json) : Option Criteria := do
  let slot ← record.slots? value
  let kind ← (slot "kind").required ExpressionKind.ofJson?
  let owner ← (slot "owner").optional asText
  let name ← (slot "name").optional asText
  let descriptor ← (slot "descriptor").optional asText
  let access ← (slot "access").optional FieldAccess.ofJson?
  return ⟨kind, owner, name, descriptor, access⟩

/-- A demand that is left out reads as none, one that is written as itself. -/
@[simp] theorem ofJson?_toJson (criteria : Criteria) : ofJson? criteria.toJson = some criteria := by
  have text (content : String) : asOption asText (ofText content) = some (some content) := rfl
  have access (mode : FieldAccess) :
      asOption FieldAccess.ofJson? mode.toJson = some (some mode) := by
    cases mode <;> decide
  obtain ⟨kind, owner, name, descriptor, mode⟩ := criteria
  cases owner <;> cases name <;> cases descriptor <;> cases mode <;>
    simp [ofJson?, toJson, record, Record.slots?, Record.admits, Record.membersOf,
      Record.memberSlot, ofMembers, Slot.required, Slot.optional, Slot.orElse, text, access]

end Criteria

namespace SequenceSpec

def record : Record := ⟨["prefix", "final"], true⟩

def toJson (spec : SequenceSpec) : Json :=
  ofMembers [("prefix", ofList Criteria.toJson spec.before),
    ("final", ofOption Criteria.toJson spec.last)]

def ofJson? (value : Json) : Option SequenceSpec := do
  let slot ← record.slots? value
  let before ← (slot "prefix").orElse [] (asList Criteria.ofJson?)
  let last ← (slot "final").optional Criteria.ofJson?
  return ⟨before, last⟩

@[simp] theorem ofJson?_toJson (spec : SequenceSpec) : ofJson? spec.toJson = some spec := by
  have last : asOption Criteria.ofJson? (ofOption Criteria.toJson spec.last) = some spec.last :=
    asOption_ofOption _ _ Criteria.ofJson?_toJson (fun _ => Json.noConfusion) spec.last
  simp [ofJson?, toJson, record, Record.slots?, Record.admits, Record.membersOf, Record.memberSlot,
    ofMembers, Slot.optional, Slot.orElse, asList_ofList, last]

end SequenceSpec

namespace Position

def record : Record := ⟨["offset", "line"], false⟩

def toJson (position : Position) : Json :=
  ofMembers [("offset", ofWord position.offset), ("line", ofOption ofWord position.line)]

def ofJson? (value : Json) : Option Position := do
  let slot ← record.slots? value
  let offset ← (slot "offset").required asWord
  let line ← (slot "line").nullable asWord
  return ⟨offset, line⟩

@[simp] theorem ofJson?_toJson (position : Position) : ofJson? position.toJson = some position := by
  have line : asOption asWord (ofOption ofWord position.line) = some position.line :=
    asOption_ofOption asWord ofWord asWord_ofWord (fun _ => Json.noConfusion) position.line
  simp [ofJson?, toJson, record, Record.slots?, Record.admits, Record.membersOf, Record.memberSlot,
    ofMembers, Slot.required, Slot.nullable, line]

end Position

namespace Anchor

def record : Record := ⟨["offset", "line", "kind"], false⟩

def toJson (anchor : Anchor) : Json :=
  ofMembers [("offset", ofWord anchor.offset), ("line", ofOption ofWord anchor.line),
    ("kind", anchor.kind.toJson)]

def ofJson? (value : Json) : Option Anchor := do
  let slot ← record.slots? value
  let offset ← (slot "offset").required asWord
  let line ← (slot "line").nullable asWord
  let kind ← (slot "kind").required ExpressionKind.ofJson?
  return ⟨offset, line, kind⟩

@[simp] theorem ofJson?_toJson (anchor : Anchor) : ofJson? anchor.toJson = some anchor := by
  have line : asOption asWord (ofOption ofWord anchor.line) = some anchor.line :=
    asOption_ofOption asWord ofWord asWord_ofWord (fun _ => Json.noConfusion) anchor.line
  simp [ofJson?, toJson, record, Record.slots?, Record.admits, Record.membersOf, Record.memberSlot,
    ofMembers, Slot.required, Slot.nullable, line]

end Anchor

end MethodPatch
