import MethodPatch.Matching.Criteria
import MethodPatch.Proofs.Bytecode.LineTable
import MethodPatch.Proofs.Expression.Translation

set_option autoImplicit false

namespace MethodPatch

def Instruction.renumbered (renumber : UInt32 → UInt32) (instruction : Instruction) : Instruction :=
  { instruction with offset := renumber instruction.offset }

def Handler.renumbered (renumber : UInt32 → UInt32) (handler : Handler) : Handler :=
  { handler with entry := renumber handler.entry }

/-- The method with other offsets for its instructions, for the entries of its handlers and for the
starts of its lines. -/
def Method.renumbered (renumber : UInt32 → UInt32) (method : Method) : Method :=
  { method with
    instructions := method.instructions.map (·.renumbered renumber)
    lines := method.lines.map (·.renumbered renumber)
    handlers := method.handlers.map (·.renumbered renumber) }

/-- The offsets at which an instruction stands, a handler is entered or a line starts. -/
def Method.offsets (method : Method) : List UInt32 :=
  method.instructions.map (·.offset) ++ method.handlers.map (·.entry) ++ method.lines.map (·.start)

def Allocation.renumbered (renumber : UInt32 → UInt32) (allocation : Allocation) : Allocation :=
  { allocation with offset := renumber allocation.offset }

def Detail.renumbered (renumber : UInt32 → UInt32) : Detail → Detail
  | .construction site allocatedAt => .construction site (renumber allocatedAt)
  | .handler entry => .handler (entry.renumbered renumber)
  | detail => detail

/-- The visit at a renumbered offset. Its line is the one that it had. -/
def Visit.renumbered (renumber : UInt32 → UInt32) (visit : Visit) : Visit :=
  { visit with
    expression :=
      { visit.expression with
        method := visit.expression.method.renumbered renumber
        position := ⟨renumber visit.expression.position.offset, visit.expression.position.line⟩
        detail := visit.expression.detail.renumbered renumber } }

namespace Operation

theorem expression?_renumbered (renumber : UInt32 → UInt32) (operation : Operation)
    (allocatedAt : Option UInt32) :
    operation.expression? (allocatedAt.map renumber) =
      (operation.expression? allocatedAt).map fun (kind, detail) =>
        (kind, detail.renumbered renumber) := by
  cases operation with
  | invoke call =>
      simp only [expression?]
      by_cases constructor : call.isConstructor = true
      · rw [if_pos constructor, if_pos constructor]
        cases allocatedAt <;> rfl
      · rw [if_neg constructor, if_neg constructor]
        rfl
  | _ => rfl

/-- Allocations are completed by their types alone. -/
theorem completed?_renumbered (renumber : UInt32 → UInt32) (operation : Operation)
    (opened : List Allocation) :
    operation.completed? (opened.map (·.renumbered renumber)) =
      (operation.completed? opened).map (·.renumbered renumber) := by
  cases operation with
  | invoke call =>
      cases opened with
      | nil => rfl
      | cons innermost rest =>
          simp only [List.map_cons, completed?, Allocation.renumbered]
          split <;> rfl
  | _ => cases opened <;> rfl

theorem openedAfter_renumbered (renumber : UInt32 → UInt32) (operation : Operation)
    (offset : UInt32) (opened : List Allocation) :
    operation.openedAfter (renumber offset) (opened.map (·.renumbered renumber)) =
      (operation.openedAfter offset opened).map (·.renumbered renumber) := by
  cases operation with
  | newObject type => rfl
  | _ =>
      simp only [openedAfter, completed?_renumbered, Option.isSome_map]
      split
      · exact List.map_tail.symm
      · rfl

end Operation

namespace Method

variable {renumber : UInt32 → UInt32} {method : Method}

theorem positionAt_renumbered (increasing : IsIncreasingOn renumber method.offsets)
    {offset : UInt32} (occurs : offset ∈ method.offsets) :
    (method.renumbered renumber).positionAt (renumber offset) =
      ⟨renumber offset, method.lineAt offset⟩ := by
  have starts : IsIncreasingOn renumber (offset :: method.lines.map (·.start)) :=
    increasing.mono fun other member =>
      (List.mem_cons.mp member).elim (fun same => same ▸ occurs) (List.mem_append_right _)
  rw [positionAt, lineAt, lineAt, renumbered, LineTable.lineAt_renumbered starts]

theorem instructionVisit?_renumbered (owner : String)
    (increasing : IsIncreasingOn renumber method.offsets) (opened : List Allocation)
    (instruction : Instruction) (occurs : instruction.offset ∈ method.offsets) :
    instructionVisit? owner (method.renumbered renumber) (opened.map (·.renumbered renumber))
        (instruction.renumbered renumber) =
      (instructionVisit? owner method opened instruction).map (·.renumbered renumber) := by
  have offsets : (instruction.operation.completed? (opened.map (·.renumbered renumber))).map
      (·.offset) = ((instruction.operation.completed? opened).map (·.offset)).map renumber := by
    rw [Operation.completed?_renumbered, Option.map_map, Option.map_map]
    rfl
  simp only [instructionVisit?, Instruction.renumbered, offsets, Operation.expression?_renumbered,
    positionAt_renumbered increasing occurs]
  rw [Option.map_map, Option.map_map]
  rfl

theorem handlerVisit_renumbered (owner : String)
    (increasing : IsIncreasingOn renumber method.offsets) (handler : Handler)
    (occurs : handler.entry ∈ method.offsets) :
    handlerVisit owner (method.renumbered renumber) (handler.renumbered renumber) =
      (handlerVisit owner method handler).renumbered renumber := by
  have position : (method.renumbered renumber).positionAt (handler.renumbered renumber).entry =
      ⟨renumber handler.entry, method.lineAt handler.entry⟩ :=
    positionAt_renumbered increasing occurs
  rw [handlerVisit, position]
  rfl

/-- The walk over a renumbered body is the walk over the body, with renumbered visits. -/
theorem visits_renumbered (owner : String) (increasing : IsIncreasingOn renumber method.offsets) :
    (method.renumbered renumber).visits owner =
      (method.visits owner).map (·.renumbered renumber) := by
  have instructionOffset {instruction : Instruction} (member : instruction ∈ method.instructions) :
      instruction.offset ∈ method.offsets :=
    List.mem_append_left _ (List.mem_append_left _ (List.mem_map_of_mem member))
  have handlerEntry {handler : Handler} (member : handler ∈ method.handlers) :
      handler.entry ∈ method.offsets :=
    List.mem_append_left _ (List.mem_append_right _ (List.mem_map_of_mem member))
  have handlers : (method.renumbered renumber).handlers.map
      (handlerVisit owner (method.renumbered renumber)) =
        (method.handlers.map (handlerVisit owner method)).map (·.renumbered renumber) := by
    simp only [renumbered, List.map_map]
    exact List.map_congr_left fun handler member =>
      handlerVisit_renumbered owner increasing handler (handlerEntry member)
  exact visits_map (·.renumbered renumber) rfl handlers
    (fun opened instruction member =>
      instructionVisit?_renumbered owner increasing opened instruction (instructionOffset member))
    fun opened instruction =>
      instruction.operation.openedAfter_renumbered renumber instruction.offset opened

end Method

/-- Constants and bare opcodes, which are of no kind. -/
def Instruction.isPadding (instruction : Instruction) : Bool :=
  match instruction.operation with
  | .loadText _ | .other _ => true
  | _ => false

/-- The visit as another method has it, which gives it the line of its own line table. -/
def Visit.within (other : Method) (visit : Visit) : Visit :=
  { visit with
    expression :=
      { visit.expression with
        method := other
        position := other.positionAt visit.expression.position.offset } }

namespace Method

variable {owner : String} {method other : Method}

theorem instructionVisit?_of_isPadding (opened : List Allocation) {instruction : Instruction}
    (padding : instruction.isPadding = true) :
    instructionVisit? owner method opened instruction = none := by
  obtain ⟨_, _, operation⟩ := instruction
  cases operation with
  | loadText _ | other _ => rfl
  | _ => cases padding

theorem openedAfter_of_isPadding (opened : List Allocation) {instruction : Instruction}
    (padding : instruction.isPadding = true) :
    instruction.operation.openedAfter instruction.offset opened = opened := by
  obtain ⟨_, _, operation⟩ := instruction
  cases operation with
  | loadText _ | other _ => rfl
  | _ => cases padding

/-- Padding may be left out of a walk. -/
theorem instructionVisits_filter (opened : List Allocation) (instructions : List Instruction) :
    instructionVisits owner method opened (instructions.filter (!·.isPadding)) =
      instructionVisits owner method opened instructions := by
  induction instructions generalizing opened with
  | nil => rfl
  | cons instruction rest ih =>
      by_cases padding : instruction.isPadding = true
      · rw [List.filter_cons_of_neg (by simpa using padding), instructionVisits,
          instructionVisit?_of_isPadding opened padding, openedAfter_of_isPadding opened padding]
        exact ih opened
      · rw [List.filter_cons_of_pos (by simpa using padding), instructionVisits, instructionVisits,
          ih]

/-- Bodies that differ in padding and lines only are visited alike, up to the lines. -/
theorem visits_within
    (instructions : other.instructions.filter (!·.isPadding) =
      method.instructions.filter (!·.isPadding))
    (handlers : other.handlers = method.handlers) :
    other.visits owner = (method.visits owner).map (Visit.within other) := by
  have visited (opened : List Allocation) (instruction : Instruction) :
      instructionVisit? owner other opened instruction =
        (instructionVisit? owner method opened instruction).map (Visit.within other) := by
    simp only [instructionVisit?, Option.map_map]
    rfl
  have body : instructionVisits owner other ([].map id) (method.instructions.map id) =
      (instructionVisits owner method [] method.instructions).map (Visit.within other) := by
    refine instructionVisits_map [] method.instructions (fun opened instruction _ => ?_) ?_
    · rw [List.map_id]
      exact visited opened instruction
    · intro opened instruction
      rw [List.map_id, List.map_id]
      rfl
  rw [List.map_id, List.map_id] at body
  rw [visits, visits, List.map_append, ← body, handlers, ← instructionVisits_filter, instructions,
    instructionVisits_filter, List.map_map]
  rfl

end Method

/-- Criteria ask for nothing but the kind and what an expression refers to. -/
theorem Criteria.accepts_congr (criteria : Criteria) {first second : Visit}
    (kind : first.kind = second.kind)
    (type : first.expression.detail.ownerType = second.expression.detail.ownerType)
    (name : first.expression.detail.memberName = second.expression.detail.memberName)
    (descriptor : first.expression.detail.descriptor = second.expression.detail.descriptor)
    (writes : first.expression.detail.writes = second.expression.detail.writes) :
    criteria.matcher.accepts first = criteria.matcher.accepts second := by
  simp only [Matcher.accepts, matcher, admits, kind, type, name, descriptor, writes]

theorem Criteria.accepts_renumbered (criteria : Criteria) (renumber : UInt32 → UInt32)
    (visit : Visit) :
    criteria.matcher.accepts (visit.renumbered renumber) = criteria.matcher.accepts visit := by
  obtain ⟨kind, ⟨_, _, _, _, detail⟩⟩ := visit
  cases detail <;> exact criteria.accepts_congr rfl rfl rfl rfl rfl

theorem Criteria.accepts_within (criteria : Criteria) (other : Method) (visit : Visit) :
    criteria.matcher.accepts (visit.within other) = criteria.matcher.accepts visit :=
  criteria.accepts_congr rfl rfl rfl rfl rfl

end MethodPatch
