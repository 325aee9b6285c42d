import MethodPatch.Proofs.Dump.RoundTrip
import MethodPatch.Proofs.Json.Edits

set_option autoImplicit false

namespace MethodPatch

open Json

def Access.shape : Shape := .flat record

def LineEntry.shape : Shape := .flat record

def Handler.shape : Shape := .flat record

def CallSite.shape : Shape := .flat record

def FieldUse.shape : Shape := .flat record

/-- What stands under the name of an operation. -/
def Operation.contentShape : String → Shape
  | "invoke" => CallSite.shape
  | "field" => FieldUse.shape
  | "new_array" => .flat arrayRecord
  | _ => .leaf

def Operation.shape : Shape := .tagged contentShape

def Instruction.shape : Shape := .record record fun
  | "kind" => Operation.shape
  | _ => .leaf

def Method.shape : Shape := .record record fun
  | "access" => Access.shape
  | "bytecode" => .list .leaf
  | "instructions" => .list Instruction.shape
  | "line_numbers" => .list LineEntry.shape
  | "exception_handlers" => .list Handler.shape
  | _ => .leaf

def Class.shape : Shape := .record record fun
  | "methods" => .list Method.shape
  | _ => .leaf

section Edited

variable {growing : Bool}

theorem Access.ofJson?_edited : Ignores (shape.Edited growing) ofJson? := by
  refine ignores_record (fun _ => rfl) fun before after edited => ?_
  have flag (key : String) (declared : key ∈ record.keys) :=
    (edited key declared).orElse false ignores_asFlag
  rw [flag "is_public" (by decide), flag "is_protected" (by decide),
    flag "is_private" (by decide), flag "is_static" (by decide), flag "is_abstract" (by decide)]

theorem LineEntry.ofJson?_edited : Ignores (shape.Edited growing) ofJson? := by
  refine ignores_record (fun _ => rfl) fun before after edited => ?_
  rw [(edited "start_pc" (by decide)).required ignores_asWord,
    (edited "line" (by decide)).required ignores_asWord]

theorem Handler.ofJson?_edited : Ignores (shape.Edited growing) ofJson? := by
  refine ignores_record (fun _ => rfl) fun before after edited => ?_
  rw [(edited "start_pc" (by decide)).required ignores_asWord,
    (edited "end_pc" (by decide)).required ignores_asWord,
    (edited "handler_pc" (by decide)).required ignores_asWord,
    (edited "catch_type" (by decide)).optional (ignores_asOption ignores_asText)]

theorem Dispatch.ofJson?_edited : Ignores (Shape.leaf.Edited growing) ofJson? :=
  ignores_asWordOf words

theorem CallSite.ofJson?_edited : Ignores (shape.Edited growing) ofJson? := by
  refine ignores_record (fun _ => rfl) fun before after edited => ?_
  rw [(edited "owner" (by decide)).required ignores_asText,
    (edited "name" (by decide)).required ignores_asText,
    (edited "descriptor" (by decide)).required ignores_asText,
    (edited "kind" (by decide)).required Dispatch.ofJson?_edited,
    (edited "offset" (by decide)).required ignores_asWord]

theorem FieldUse.ofJson?_edited : Ignores (shape.Edited growing) ofJson? := by
  refine ignores_record (fun _ => rfl) fun before after edited => ?_
  rw [(edited "owner" (by decide)).required ignores_asText,
    (edited "name" (by decide)).required ignores_asText,
    (edited "descriptor" (by decide)).required ignores_asText,
    (edited "is_static" (by decide)).orElse false ignores_asFlag,
    (edited "is_write" (by decide)).orElse false ignores_asFlag]

theorem Operation.newArrayOfJson?_edited :
    Ignores ((Shape.flat arrayRecord).Edited growing) newArrayOfJson? := by
  refine ignores_record (fun _ => rfl) fun before after edited => ?_
  rw [(edited "component" (by decide)).required ignores_asText,
    (edited "dimensions" (by decide)).required ignores_asByte]

/-- The names of the operations. -/
def Operation.tags : List String :=
  ["invoke", "field", "new", "check_cast", "instance_of", "new_array", "const_string", "other"]

theorem Operation.ofJson?_of_not_mem_tags {tag : String} (unknown : tag ∉ tags) (content : Json) :
    ofJson? (.object [(some tag, content)]) = none := by
  simp only [tags, List.mem_cons, List.not_mem_nil, or_false, not_or] at unknown
  simp [ofJson?, asTagged, unknown]

theorem Operation.ofJson?_tagged_edited (tag : String) :
    Ignores ((contentShape tag).Edited growing) fun content =>
      ofJson? (.object [(some tag, content)]) := by
  by_cases known : tag ∈ tags
  · simp only [tags, List.mem_cons, List.not_mem_nil, or_false] at known
    rcases known with rfl | rfl | rfl | rfl | rfl | rfl | rfl | rfl
    · exact ignores_map invoke CallSite.ofJson?_edited
    · exact ignores_map field FieldUse.ofJson?_edited
    · exact ignores_map newObject ignores_asText
    · exact ignores_map checkCast ignores_asText
    · exact ignores_map instanceOf ignores_asText
    · exact newArrayOfJson?_edited
    · exact ignores_map loadText ignores_asText
    · exact ignores_map other ignores_asByte
  · intro before after _
    exact (ofJson?_of_not_mem_tags known after).trans (ofJson?_of_not_mem_tags known before).symm

theorem Operation.ofJson?_eq (value : Json) :
    ofJson? value = (asTagged value).bind fun tagged =>
      ofJson? (.object [(some tagged.1, tagged.2)]) := by
  rw [ofJson?]
  cases asTagged value <;> rfl

theorem Operation.ofJson?_edited : Ignores (shape.Edited growing) ofJson? := by
  intro before after edited
  rw [ofJson?_eq, ofJson?_eq]
  refine bind_eq_of_rel (asTagged_edited edited) _ fun (tag, held) (_, content) alike => ?_
  obtain ⟨rfl, rfl | inner⟩ := alike
  · rfl
  · exact ofJson?_tagged_edited tag held content inner

theorem Instruction.ofJson?_edited : Ignores (shape.Edited growing) ofJson? := by
  refine ignores_record (fun _ => rfl) fun before after edited => ?_
  rw [(edited "offset" (by decide)).required ignores_asWord,
    (edited "opcode" (by decide)).required ignores_asByte,
    (edited "kind" (by decide)).required Operation.ofJson?_edited]

theorem Method.ofJson?_edited : Ignores (shape.Edited growing) ofJson? := by
  refine ignores_record (fun _ => rfl) fun before after edited => ?_
  rw [(edited "name" (by decide)).required ignores_asText,
    (edited "descriptor" (by decide)).required ignores_asText,
    (edited "access" (by decide)).orElse Access.packagePrivate Access.ofJson?_edited,
    (edited "bytecode" (by decide)).orElse [] (ignores_asList ignores_asByte),
    (edited "instructions" (by decide)).required (ignores_asList Instruction.ofJson?_edited),
    (edited "line_numbers" (by decide)).orElse [] (ignores_asList LineEntry.ofJson?_edited),
    (edited "exception_handlers" (by decide)).orElse [] (ignores_asList Handler.ofJson?_edited)]

theorem Class.ofJson?_edited : Ignores (shape.Edited growing) ofJson? := by
  refine ignores_record (fun _ => rfl) fun before after edited => ?_
  rw [(edited "name" (by decide)).required ignores_asText,
    (edited "super_name" (by decide)).optional (ignores_asOption ignores_asText),
    (edited "is_interface" (by decide)).orElse false ignores_asFlag,
    (edited "methods" (by decide)).required (ignores_asList Method.ofJson?_edited)]

end Edited

end MethodPatch
