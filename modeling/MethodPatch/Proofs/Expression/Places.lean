import MethodPatch.Expression.Walk

set_option autoImplicit false

namespace MethodPatch.Method

/-- The allocations that are open before the instruction at `place`, innermost first. -/
def openedBefore (method : Method) (place : Nat) : List Allocation :=
  (method.instructions.take place).foldl
    (fun opened instruction => instruction.operation.openedAfter instruction.offset opened) []

/-- The visit of the instruction at `place`. -/
def visitAt? (owner : String) (method : Method) (place : Nat) : Option Visit :=
  method.instructions[place]?.bind (instructionVisit? owner method (method.openedBefore place))

theorem openedBefore_succ (method : Method) (place : Nat) {instruction : Instruction}
    (here : method.instructions[place]? = some instruction) :
    method.openedBefore (place + 1) =
      instruction.operation.openedAfter instruction.offset (method.openedBefore place) := by
  rw [openedBefore, List.take_add_one, here, List.foldl_append]
  rfl

theorem openedBefore_succ_of_none (method : Method) (place : Nat)
    (past : method.instructions[place]? = none) :
    method.openedBefore (place + 1) = method.openedBefore place := by
  rw [openedBefore, List.take_add_one, past, Option.toList_none, List.append_nil, openedBefore]

theorem instructionVisits_eq_filterMap (owner : String) (method : Method)
    (opened : List Allocation) (instructions : List Instruction) :
    instructionVisits owner method opened instructions =
      (List.range instructions.length).filterMap fun place =>
        instructions[place]?.bind (instructionVisit? owner method
          ((instructions.take place).foldl (fun opened instruction =>
            instruction.operation.openedAfter instruction.offset opened) opened)) := by
  induction instructions generalizing opened with
  | nil => rfl
  | cons instruction rest ih =>
      rw [instructionVisits, ih, List.length_cons, List.range_succ_eq_map, List.filterMap_cons,
        List.filterMap_map]
      cases here : instructionVisit? owner method opened instruction with
      | none => simp [here, Function.comp_def]
      | some visit => simp [here, Function.comp_def]

/-- A walk is the visits at its places, then the entries of the handlers. -/
theorem visits_eq_filterMap (owner : String) (method : Method) :
    method.visits owner =
      (List.range method.instructions.length).filterMap (method.visitAt? owner) ++
        method.handlers.map (handlerVisit owner method) := by
  rw [visits, instructionVisits_eq_filterMap]
  rfl

end MethodPatch.Method
