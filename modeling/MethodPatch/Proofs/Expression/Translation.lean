import MethodPatch.Expression.Walk

set_option autoImplicit false

namespace MethodPatch.Method

variable {owner renamed : String} {method other : Method} {replace : Instruction → Instruction}
  {allocated : Allocation → Allocation} {seen : Visit → Visit}

theorem instructionVisits_map (opened : List Allocation) (instructions : List Instruction)
    (visited : ∀ (opened : List Allocation), ∀ instruction ∈ instructions,
      instructionVisit? renamed other (opened.map allocated) (replace instruction) =
        (instructionVisit? owner method opened instruction).map seen)
    (opening : ∀ (opened : List Allocation) (instruction : Instruction),
      (replace instruction).operation.openedAfter (replace instruction).offset
          (opened.map allocated) =
        (instruction.operation.openedAfter instruction.offset opened).map allocated) :
    instructionVisits renamed other (opened.map allocated) (instructions.map replace) =
      (instructionVisits owner method opened instructions).map seen := by
  induction instructions generalizing opened with
  | nil => rfl
  | cons instruction rest ih =>
      have here := visited opened instruction List.mem_cons_self
      have later := ih (instruction.operation.openedAfter instruction.offset opened)
        fun opened other member => visited opened other (List.mem_cons_of_mem instruction member)
      rw [List.map_cons, instructionVisits, instructionVisits, here, opening, later,
        List.map_append, Option.toList_map]

theorem visits_map (allocated : Allocation → Allocation)
    (instructions : other.instructions = method.instructions.map replace)
    (handlers : other.handlers.map (handlerVisit renamed other) =
      (method.handlers.map (handlerVisit owner method)).map seen)
    (visited : ∀ (opened : List Allocation), ∀ instruction ∈ method.instructions,
      instructionVisit? renamed other (opened.map allocated) (replace instruction) =
        (instructionVisit? owner method opened instruction).map seen)
    (opening : ∀ (opened : List Allocation) (instruction : Instruction),
      (replace instruction).operation.openedAfter (replace instruction).offset
          (opened.map allocated) =
        (instruction.operation.openedAfter instruction.offset opened).map allocated) :
    other.visits renamed = (method.visits owner).map seen := by
  have body := instructionVisits_map [] method.instructions visited opening
  rw [List.map_nil] at body
  rw [visits, visits, List.map_append, instructions, body, handlers]

end MethodPatch.Method
