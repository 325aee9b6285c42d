import MethodPatch.Bytecode.Class
import MethodPatch.Json.Record

set_option autoImplicit false

namespace MethodPatch

open Json

namespace Access

def record : Record :=
  ⟨["is_public", "is_protected", "is_private", "is_static", "is_abstract"], false⟩

def toJson (access : Access) : Json :=
  ofMembers [("is_public", ofFlag access.isPublic), ("is_protected", ofFlag access.isProtected),
    ("is_private", ofFlag access.isPrivate), ("is_static", ofFlag access.isStatic),
    ("is_abstract", ofFlag access.isAbstract)]

def ofJson? (value : Json) : Option Access := do
  let slot ← record.slots? value
  let isPublic ← (slot "is_public").orElse false asFlag
  let isProtected ← (slot "is_protected").orElse false asFlag
  let isPrivate ← (slot "is_private").orElse false asFlag
  let isStatic ← (slot "is_static").orElse false asFlag
  let isAbstract ← (slot "is_abstract").orElse false asFlag
  return ⟨isPublic, isProtected, isPrivate, isStatic, isAbstract⟩

/-- Reading gives back what was written. -/
@[simp] theorem ofJson?_toJson (access : Access) : ofJson? access.toJson = some access := by
  simp [ofJson?, toJson, record, Record.slots?, Record.admits, Record.membersOf, Record.memberSlot,
    ofMembers, Slot.orElse]

end Access

namespace LineEntry

def record : Record := ⟨["start_pc", "line"], false⟩

def toJson (entry : LineEntry) : Json :=
  ofMembers [("start_pc", ofWord entry.start), ("line", ofWord entry.line)]

def ofJson? (value : Json) : Option LineEntry := do
  let slot ← record.slots? value
  let start ← (slot "start_pc").required asWord
  let line ← (slot "line").required asWord
  return ⟨start, line⟩

@[simp] theorem ofJson?_toJson (entry : LineEntry) : ofJson? entry.toJson = some entry := by
  simp [ofJson?, toJson, record, Record.slots?, Record.admits, Record.membersOf, Record.memberSlot,
    ofMembers, Slot.required]

end LineEntry

namespace Handler

def record : Record := ⟨["start_pc", "end_pc", "handler_pc", "catch_type"], false⟩

def toJson (handler : Handler) : Json :=
  ofMembers [("start_pc", ofWord handler.start), ("end_pc", ofWord handler.stop),
    ("handler_pc", ofWord handler.entry), ("catch_type", ofOption ofText handler.caught)]

def ofJson? (value : Json) : Option Handler := do
  let slot ← record.slots? value
  let start ← (slot "start_pc").required asWord
  let stop ← (slot "end_pc").required asWord
  let entry ← (slot "handler_pc").required asWord
  let caught ← (slot "catch_type").optional asText
  return ⟨start, stop, entry, caught⟩

@[simp] theorem ofJson?_toJson (handler : Handler) : ofJson? handler.toJson = some handler := by
  have caught : asOption asText (ofOption ofText handler.caught) = some handler.caught :=
    asOption_ofOption asText ofText asText_ofText (fun _ => Json.noConfusion) handler.caught
  simp [ofJson?, toJson, record, Record.slots?, Record.admits, Record.membersOf, Record.memberSlot,
    ofMembers, Slot.required, Slot.optional, Slot.orElse, caught]

end Handler

namespace Dispatch

def label : Dispatch → String
  | .virtual => "virtual"
  | .interface => "interface"
  | .special => "special"
  | .static => "static"

def words : List (String × Dispatch) :=
  [.virtual, .interface, .special, .static].map fun dispatch => (label dispatch, dispatch)

def toJson (dispatch : Dispatch) : Json := ofText dispatch.label

def ofJson? (value : Json) : Option Dispatch := asWordOf words value

@[simp] theorem ofJson?_toJson (dispatch : Dispatch) : ofJson? dispatch.toJson = some dispatch := by
  cases dispatch <;> decide

end Dispatch

namespace CallSite

def record : Record := ⟨["owner", "name", "descriptor", "kind", "offset"], false⟩

def toJson (call : CallSite) : Json :=
  ofMembers [("owner", ofText call.owner), ("name", ofText call.name),
    ("descriptor", ofText call.descriptor), ("kind", call.dispatch.toJson),
    ("offset", ofWord call.offset)]

def ofJson? (value : Json) : Option CallSite := do
  let slot ← record.slots? value
  let owner ← (slot "owner").required asText
  let name ← (slot "name").required asText
  let descriptor ← (slot "descriptor").required asText
  let dispatch ← (slot "kind").required Dispatch.ofJson?
  let offset ← (slot "offset").required asWord
  return ⟨owner, name, descriptor, dispatch, offset⟩

@[simp] theorem ofJson?_toJson (call : CallSite) : ofJson? call.toJson = some call := by
  simp [ofJson?, toJson, record, Record.slots?, Record.admits, Record.membersOf, Record.memberSlot,
    ofMembers, Slot.required]

end CallSite

namespace FieldUse

def record : Record := ⟨["owner", "name", "descriptor", "is_static", "is_write"], false⟩

def toJson (use : FieldUse) : Json :=
  ofMembers [("owner", ofText use.owner), ("name", ofText use.name),
    ("descriptor", ofText use.descriptor), ("is_static", ofFlag use.isStatic),
    ("is_write", ofFlag use.isWrite)]

def ofJson? (value : Json) : Option FieldUse := do
  let slot ← record.slots? value
  let owner ← (slot "owner").required asText
  let name ← (slot "name").required asText
  let descriptor ← (slot "descriptor").required asText
  let isStatic ← (slot "is_static").orElse false asFlag
  let isWrite ← (slot "is_write").orElse false asFlag
  return ⟨owner, name, descriptor, isStatic, isWrite⟩

@[simp] theorem ofJson?_toJson (use : FieldUse) : ofJson? use.toJson = some use := by
  simp [ofJson?, toJson, record, Record.slots?, Record.admits, Record.membersOf, Record.memberSlot,
    ofMembers, Slot.required, Slot.orElse]

end FieldUse

namespace Operation

def arrayRecord : Record := ⟨["component", "dimensions"], false⟩

def toJson : Operation → Json
  | .invoke call => ofTagged "invoke" call.toJson
  | .field use => ofTagged "field" use.toJson
  | .newObject type => ofTagged "new" (ofText type)
  | .checkCast type => ofTagged "check_cast" (ofText type)
  | .instanceOf type => ofTagged "instance_of" (ofText type)
  | .newArray component dimensions =>
      ofTagged "new_array"
        (ofMembers [("component", ofText component), ("dimensions", ofByte dimensions)])
  | .loadText content => ofTagged "const_string" (ofText content)
  | .other opcode => ofTagged "other" (ofByte opcode)

def newArrayOfJson? (value : Json) : Option Operation := do
  let slot ← arrayRecord.slots? value
  let component ← (slot "component").required asText
  let dimensions ← (slot "dimensions").required asByte
  return .newArray component dimensions

def ofJson? (value : Json) : Option Operation :=
  match asTagged value with
  | some ("invoke", content) => (CallSite.ofJson? content).map .invoke
  | some ("field", content) => (FieldUse.ofJson? content).map .field
  | some ("new", content) => (asText content).map .newObject
  | some ("check_cast", content) => (asText content).map .checkCast
  | some ("instance_of", content) => (asText content).map .instanceOf
  | some ("new_array", content) => newArrayOfJson? content
  | some ("const_string", content) => (asText content).map .loadText
  | some ("other", content) => (asByte content).map .other
  | _ => none

@[simp] theorem ofJson?_toJson (operation : Operation) :
    ofJson? operation.toJson = some operation := by
  cases operation <;>
    simp [ofJson?, toJson, ofTagged, asTagged, newArrayOfJson?, arrayRecord, Record.slots?,
      Record.admits, Record.membersOf, Record.memberSlot, ofMembers, Slot.required]

end Operation

namespace Instruction

def record : Record := ⟨["offset", "opcode", "kind"], false⟩

def toJson (instruction : Instruction) : Json :=
  ofMembers [("offset", ofWord instruction.offset), ("opcode", ofByte instruction.opcode),
    ("kind", instruction.operation.toJson)]

def ofJson? (value : Json) : Option Instruction := do
  let slot ← record.slots? value
  let offset ← (slot "offset").required asWord
  let opcode ← (slot "opcode").required asByte
  let operation ← (slot "kind").required Operation.ofJson?
  return ⟨offset, opcode, operation⟩

@[simp] theorem ofJson?_toJson (instruction : Instruction) :
    ofJson? instruction.toJson = some instruction := by
  simp [ofJson?, toJson, record, Record.slots?, Record.admits, Record.membersOf, Record.memberSlot,
    ofMembers, Slot.required]

end Instruction

namespace Method

def record : Record :=
  ⟨["name", "descriptor", "access", "bytecode", "instructions", "line_numbers",
    "exception_handlers"], false⟩

def toJson (method : Method) : Json :=
  ofMembers [("name", ofText method.name), ("descriptor", ofText method.descriptor),
    ("access", method.access.toJson), ("bytecode", ofList ofByte method.bytecode),
    ("instructions", ofList Instruction.toJson method.instructions),
    ("line_numbers", ofList LineEntry.toJson method.lines),
    ("exception_handlers", ofList Handler.toJson method.handlers)]

def ofJson? (value : Json) : Option Method := do
  let slot ← record.slots? value
  let name ← (slot "name").required asText
  let descriptor ← (slot "descriptor").required asText
  let access ← (slot "access").orElse Access.packagePrivate Access.ofJson?
  let bytecode ← (slot "bytecode").orElse [] (asList asByte)
  let instructions ← (slot "instructions").required (asList Instruction.ofJson?)
  let lines ← (slot "line_numbers").orElse [] (asList LineEntry.ofJson?)
  let handlers ← (slot "exception_handlers").orElse [] (asList Handler.ofJson?)
  return ⟨name, descriptor, access, bytecode, instructions, lines, handlers⟩

@[simp] theorem ofJson?_toJson (method : Method) : ofJson? method.toJson = some method := by
  simp [ofJson?, toJson, record, Record.slots?, Record.admits, Record.membersOf, Record.memberSlot,
    ofMembers, Slot.required, Slot.orElse, asList_ofList]

end Method

namespace Class

def record : Record := ⟨["name", "super_name", "is_interface", "methods"], false⟩

/-- The position of the class among the scanned files is no part of its form. -/
def toJson (owner : Class) : Json :=
  ofMembers [("name", ofText owner.name), ("super_name", ofOption ofText owner.parent),
    ("is_interface", ofFlag owner.isInterface), ("methods", ofList Method.toJson owner.methods)]

def ofJson? (value : Json) : Option Class := do
  let slot ← record.slots? value
  let name ← (slot "name").required asText
  let parent ← (slot "super_name").optional asText
  let isInterface ← (slot "is_interface").orElse false asFlag
  let methods ← (slot "methods").required (asList Method.ofJson?)
  return ⟨name, parent, isInterface, methods, 0⟩

/-- Reading gives back what was written, as a class of the first file. -/
@[simp] theorem ofJson?_toJson (owner : Class) :
    ofJson? owner.toJson = some { owner with artifact := 0 } := by
  have parent : asOption asText (ofOption ofText owner.parent) = some owner.parent :=
    asOption_ofOption asText ofText asText_ofText (fun _ => Json.noConfusion) owner.parent
  simp [ofJson?, toJson, record, Record.slots?, Record.admits, Record.membersOf, Record.memberSlot,
    ofMembers, Slot.required, Slot.optional, Slot.orElse, asList_ofList, parent]

end Class

/-- The classes of a dump: a value is one class if it can be, and a list of classes otherwise. -/
def dumpOfJson? (value : Json) : Option (List Class) :=
  match Class.ofJson? value with
  | some owner => some [owner]
  | none => asList Class.ofJson? value

end MethodPatch
