import MethodPatch.Matching.Criteria
import MethodPatch.Proofs.Expression.Translation

set_option autoImplicit false

namespace MethodPatch

/-- The call without its dispatch; one stands for all. -/
def CallSite.plain (call : CallSite) : CallSite := { call with dispatch := .special }

namespace Operation

def plain : Operation → Operation
  | .invoke call => .invoke call.plain
  | operation => operation

end Operation

def Instruction.plain (instruction : Instruction) : Instruction :=
  .encoding instruction.offset instruction.operation.plain

/-- The method with nothing but what a walk looks at. -/
def Method.plain (method : Method) : Method :=
  { method with
    access := .packagePrivate
    bytecode := []
    instructions := method.instructions.map Instruction.plain }

def Class.plain (owner : Class) : Class :=
  { owner with methods := owner.methods.map Method.plain }

def Detail.plain : Detail → Detail
  | .call site => .call site.plain
  | .construction site allocatedAt => .construction site.plain allocatedAt
  | detail => detail

def Expression.plain (expression : Expression) : Expression :=
  { expression with method := expression.method.plain, detail := expression.detail.plain }

def Visit.plain (visit : Visit) : Visit := { visit with expression := visit.expression.plain }

namespace Operation

theorem expression?_plain (operation : Operation) (allocatedAt : Option UInt32) :
    operation.plain.expression? allocatedAt =
      (operation.expression? allocatedAt).map fun (kind, detail) => (kind, detail.plain) := by
  cases operation with
  | invoke call =>
      have same : call.plain.isConstructor = call.isConstructor := rfl
      simp only [plain, expression?, same]
      by_cases constructor : call.isConstructor = true
      · rw [if_pos constructor, if_pos constructor]
        cases allocatedAt <;> rfl
      · rw [if_neg constructor, if_neg constructor]
        rfl
  | _ => rfl

@[simp] theorem completed?_plain (operation : Operation) (opened : List Allocation) :
    operation.plain.completed? opened = operation.completed? opened := by
  cases operation with
  | invoke call => cases opened <;> rfl
  | _ => rfl

@[simp] theorem openedAfter_plain (operation : Operation) (offset : UInt32)
    (opened : List Allocation) :
    operation.plain.openedAfter offset opened = operation.openedAfter offset opened := by
  cases operation with
  | invoke call => cases opened <;> rfl
  | _ => rfl

end Operation

namespace Method

theorem instructionVisit?_plain (owner : String) (method : Method) (opened : List Allocation)
    (instruction : Instruction) :
    instructionVisit? owner method.plain opened instruction.plain =
      (instructionVisit? owner method opened instruction).map Visit.plain := by
  simp only [instructionVisit?, Instruction.plain, Instruction.encoding,
    Operation.completed?_plain, Operation.expression?_plain, Option.map_map]
  rfl

/-- The walk over a plain method is the walk over the method, with plain visits. -/
theorem visits_plain (owner : String) (method : Method) :
    method.plain.visits owner = (method.visits owner).map Visit.plain := by
  have handlers : method.plain.handlers.map (handlerVisit owner method.plain) =
      (method.handlers.map (handlerVisit owner method)).map Visit.plain := by
    rw [List.map_map]
    rfl
  refine visits_map id rfl handlers (fun opened instruction _ => ?_) fun opened instruction => ?_
  · show instructionVisit? owner method.plain (opened.map id) instruction.plain = _
    rw [List.map_id]
    exact instructionVisit?_plain owner method opened instruction
  · show instruction.operation.plain.openedAfter instruction.offset (opened.map id) = _
    rw [List.map_id, List.map_id]
    exact instruction.operation.openedAfter_plain instruction.offset opened

end Method

theorem Criteria.admits_plain (criteria : Criteria) (expression : Expression) :
    criteria.admits expression.plain = criteria.admits expression := by
  obtain ⟨kind, owner, method, position, detail⟩ := expression
  cases detail <;> rfl

/-- Criteria do not tell a visit from its plain form. -/
theorem Criteria.accepts_plain (criteria : Criteria) (visit : Visit) :
    criteria.matcher.accepts visit.plain = criteria.matcher.accepts visit := by
  have same := criteria.admits_plain visit.expression
  simp only [Matcher.accepts, matcher, Visit.plain, same]

end MethodPatch
