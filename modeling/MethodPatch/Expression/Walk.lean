import MethodPatch.Expression.Node
import MethodPatch.TypeName

set_option autoImplicit false

namespace MethodPatch

/-- An allocation still without its initializer call. -/
structure Allocation where
  type : String
  offset : UInt32
deriving DecidableEq, Repr

namespace Operation

/-- The kind and the detail of an operation. `allocatedAt` is the offset of the allocation that it
completes, if it is an initializer call that completes one. -/
def expression? (operation : Operation) (allocatedAt : Option UInt32) :
    Option (ExpressionKind × Detail) :=
  match operation with
  | .invoke call =>
      if call.isConstructor then
        match allocatedAt with
        | some offset => some (.objectConstruction, .construction call offset)
        | none => some (.constructorCall, .call call)
      else some (.methodCall, .call call)
  | .field use => some (.fieldAccess, .field use)
  | .checkCast type => some (.typeCast, .type type)
  | .instanceOf type => some (.typeCheck, .type type)
  | .newArray component dimensions => some (.arrayConstruction, .array component dimensions)
  | .newObject _ | .loadText _ | .other _ => none

/-- The kind of an operation, given whether it completes an allocation. -/
def kind? (operation : Operation) (completes : Bool) : Option ExpressionKind :=
  (operation.expression? (if completes then some 0 else none)).map (·.1)

/-- The allocation that an operation completes, given the open ones innermost first. -/
def completed? (operation : Operation) (opened : List Allocation) : Option Allocation :=
  match operation, opened with
  | .invoke call, innermost :: _ =>
      if call.isConstructor && TypeName.same innermost.type call.owner then some innermost
      else none
  | _, _ => none

/-- The open allocations after an operation that stands at `offset`. -/
def openedAfter (operation : Operation) (offset : UInt32) (opened : List Allocation) :
    List Allocation :=
  match operation with
  | .newObject type => ⟨type, offset⟩ :: opened
  | _ => if (operation.completed? opened).isSome then opened.tail else opened

end Operation

namespace Method

def positionAt (method : Method) (offset : UInt32) : Position :=
  ⟨offset, method.lineAt offset⟩

/-- The visit of one instruction, given the open allocations before it. -/
def instructionVisit? (owner : String) (method : Method) (opened : List Allocation)
    (instruction : Instruction) : Option Visit :=
  let allocatedAt := (instruction.operation.completed? opened).map (·.offset)
  (instruction.operation.expression? allocatedAt).map fun (kind, detail) =>
    ⟨kind, ⟨kind, owner, method, method.positionAt instruction.offset, detail⟩⟩

/-- The visits of a run of instructions, given the open allocations before it. -/
def instructionVisits (owner : String) (method : Method) :
    List Allocation → List Instruction → List Visit
  | _, [] => []
  | opened, instruction :: rest =>
      (instructionVisit? owner method opened instruction).toList ++
        instructionVisits owner method
          (instruction.operation.openedAfter instruction.offset opened) rest

def handlerVisit (owner : String) (method : Method) (handler : Handler) : Visit :=
  ⟨.exceptionHandlerEntry,
    ⟨.exceptionHandlerEntry, owner, method, method.positionAt handler.entry, .handler handler⟩⟩

/-- Every visit of a walk over a method of the class `owner`. -/
def visits (owner : String) (method : Method) : List Visit :=
  instructionVisits owner method [] method.instructions ++
    method.handlers.map (handlerVisit owner method)

end Method

end MethodPatch
