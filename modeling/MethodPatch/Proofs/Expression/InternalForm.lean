import MethodPatch.Matching.Criteria
import MethodPatch.Proofs.Expression.Translation
import MethodPatch.Proofs.TypeName

set_option autoImplicit false

namespace MethodPatch

def CallSite.internal (call : CallSite) : CallSite :=
  { call with owner := TypeName.internal call.owner }

def FieldUse.internal (use : FieldUse) : FieldUse :=
  { use with owner := TypeName.internal use.owner }

def Operation.internal : Operation → Operation
  | .invoke call => .invoke call.internal
  | .field use => .field use.internal
  | .newObject type => .newObject (TypeName.internal type)
  | .checkCast type => .checkCast (TypeName.internal type)
  | .instanceOf type => .instanceOf (TypeName.internal type)
  | .newArray component dimensions => .newArray (TypeName.internal component) dimensions
  | .loadText content => .loadText content
  | .other opcode => .other opcode

def Instruction.internal (instruction : Instruction) : Instruction :=
  { instruction with operation := instruction.operation.internal }

def Handler.internal (handler : Handler) : Handler :=
  { handler with caught := handler.caught.map TypeName.internal }

/-- The method with the type names of its body in internal form. -/
def Method.internal (method : Method) : Method :=
  { method with
    instructions := method.instructions.map Instruction.internal
    handlers := method.handlers.map Handler.internal }

/-- The class with the type names of its bodies in internal form. Its own name stays. -/
def Class.internal (owner : Class) : Class :=
  { owner with methods := owner.methods.map Method.internal }

def Allocation.internal (allocation : Allocation) : Allocation :=
  { allocation with type := TypeName.internal allocation.type }

def Detail.internal : Detail → Detail
  | .call site => .call site.internal
  | .field use => .field use.internal
  | .construction site allocatedAt => .construction site.internal allocatedAt
  | .type name => .type (TypeName.internal name)
  | .array component dimensions => .array (TypeName.internal component) dimensions
  | .handler entry => .handler entry.internal

def Expression.internal (expression : Expression) : Expression :=
  { expression with
    method := expression.method.internal
    detail := expression.detail.internal }

def Visit.internal (visit : Visit) : Visit :=
  { visit with expression := visit.expression.internal }

def Criteria.internal (criteria : Criteria) : Criteria :=
  { criteria with owner := criteria.owner.map TypeName.internal }

namespace Operation

theorem expression?_internal (operation : Operation) (allocatedAt : Option UInt32) :
    operation.internal.expression? allocatedAt =
      (operation.expression? allocatedAt).map fun (kind, detail) => (kind, detail.internal) := by
  cases operation with
  | invoke call =>
      have same : call.internal.isConstructor = call.isConstructor := rfl
      simp only [internal, expression?, same]
      by_cases constructor : call.isConstructor = true
      · rw [if_pos constructor, if_pos constructor]
        cases allocatedAt <;> rfl
      · rw [if_neg constructor, if_neg constructor]
        rfl
  | _ => rfl

/-- The same allocations are completed, whichever way the two types are spelled. -/
theorem completed?_internal (operation : Operation) (opened : List Allocation) :
    operation.internal.completed? (opened.map Allocation.internal) =
      (operation.completed? opened).map Allocation.internal := by
  cases operation with
  | invoke call =>
      cases opened with
      | nil => rfl
      | cons innermost rest =>
          have constructor : call.internal.isConstructor = call.isConstructor := rfl
          have types : TypeName.same innermost.internal.type call.internal.owner =
              TypeName.same innermost.type call.owner := by
            simp only [Allocation.internal, CallSite.internal, TypeName.same_internal_left,
              TypeName.same_internal_right]
          simp only [internal, List.map_cons, completed?, constructor, types]
          split <;> rfl
  | _ => cases opened <;> rfl

theorem openedAfter_internal (operation : Operation) (offset : UInt32)
    (opened : List Allocation) :
    operation.internal.openedAfter offset (opened.map Allocation.internal) =
      (operation.openedAfter offset opened).map Allocation.internal := by
  have completed := operation.completed?_internal opened
  cases operation with
  | newObject type => rfl
  | _ =>
      simp only [internal] at completed
      simp only [internal, openedAfter, completed, Option.isSome_map]
      split
      · exact List.map_tail.symm
      · rfl

end Operation

namespace Method

theorem instructionVisit?_internal (owner : String) (method : Method) (opened : List Allocation)
    (instruction : Instruction) :
    instructionVisit? owner method.internal (opened.map Allocation.internal)
        instruction.internal =
      (instructionVisit? owner method opened instruction).map Visit.internal := by
  have offsets (completed : Option Allocation) :
      (completed.map Allocation.internal).map (·.offset) = completed.map (·.offset) := by
    cases completed <;> rfl
  simp only [instructionVisit?, Instruction.internal, Operation.completed?_internal, offsets,
    Operation.expression?_internal, Option.map_map]
  rfl

/-- The walk over the internal form is the walk over the method, with visits in internal form. -/
theorem visits_internal (owner : String) (method : Method) :
    method.internal.visits owner = (method.visits owner).map Visit.internal := by
  have handlers : method.internal.handlers.map (handlerVisit owner method.internal) =
      (method.handlers.map (handlerVisit owner method)).map Visit.internal := by
    rw [internal, List.map_map, List.map_map]
    rfl
  exact visits_map Allocation.internal rfl handlers
    (fun opened instruction _ => instructionVisit?_internal owner method opened instruction)
    fun opened instruction => instruction.operation.openedAfter_internal instruction.offset opened

end Method

theorem Detail.ownerType_internal (detail : Detail) :
    detail.internal.ownerType = detail.ownerType.map TypeName.internal := by
  cases detail <;> rfl

/-- Criteria in internal form admit expressions in internal form as the criteria themselves admit
the expressions. -/
theorem Criteria.admits_internal (criteria : Criteria) (expression : Expression) :
    criteria.internal.admits expression.internal = criteria.admits expression := by
  have owner : criteria.internal.owner.all (fun owner =>
      expression.internal.detail.ownerType.any (TypeName.same owner)) =
        criteria.owner.all fun owner => expression.detail.ownerType.any (TypeName.same owner) := by
    have type : expression.internal.detail.ownerType =
        expression.detail.ownerType.map TypeName.internal := expression.detail.ownerType_internal
    rw [type]
    simp only [internal, Option.all_map, Option.any_map,
      TypeName.same_internal_left, TypeName.same_internal_right]
  obtain ⟨kind, asked, name, descriptor, access⟩ := criteria
  obtain ⟨_, _, _, _, detail⟩ := expression
  simp only [admits, owner]
  cases detail <;> rfl

theorem Criteria.accepts_internal (criteria : Criteria) (visit : Visit) :
    criteria.internal.matcher.accepts visit.internal = criteria.matcher.accepts visit := by
  have same := criteria.admits_internal visit.expression
  simp only [Matcher.accepts, matcher, Visit.internal, same]
  rfl

end MethodPatch
