import MethodPatch.Bytecode.Opcode

set_option autoImplicit false

namespace MethodPatch

/-- How a call chooses the method it runs. -/
inductive Dispatch where
  | virtual
  | interface
  | special
  | static
deriving DecidableEq, Repr

def Dispatch.opcode : Dispatch → UInt8
  | .virtual => Opcode.invokeVirtual
  | .interface => Opcode.invokeInterface
  | .special => Opcode.invokeSpecial
  | .static => Opcode.invokeStatic

structure CallSite where
  owner : String
  name : String
  descriptor : String
  dispatch : Dispatch
  offset : UInt32
deriving DecidableEq, Repr

/-- Instance initializers go by one name in every class. -/
def CallSite.isConstructor (call : CallSite) : Bool :=
  call.name == "<init>"

structure FieldUse where
  owner : String
  name : String
  descriptor : String
  isStatic : Bool
  isWrite : Bool
deriving DecidableEq, Repr

def FieldUse.opcode (use : FieldUse) : UInt8 :=
  match use.isStatic, use.isWrite with
  | true, false => Opcode.getStatic
  | true, true => Opcode.putStatic
  | false, false => Opcode.getField
  | false, true => Opcode.putField

inductive Operation where
  | invoke (call : CallSite)
  | field (use : FieldUse)
  | newObject (type : String)
  | checkCast (type : String)
  | instanceOf (type : String)
  | newArray (component : String) (dimensions : UInt8)
  | loadText (content : String)
  | other (opcode : UInt8)
deriving DecidableEq, Repr

/-- Descriptors of the types whose values are no references. -/
def primitiveDescriptors : List String :=
  ["Z", "B", "C", "S", "I", "J", "F", "D"]

/-- The opcode that an operation is encoded with. -/
def Operation.opcode : Operation → UInt8
  | .invoke call => call.dispatch.opcode
  | .field use => use.opcode
  | .newObject _ => Opcode.newObject
  | .checkCast _ => Opcode.checkCast
  | .instanceOf _ => Opcode.instanceOf
  | .newArray component dimensions =>
      if 1 < dimensions then Opcode.newNestedArray
      else if component ∈ primitiveDescriptors then Opcode.newPrimitiveArray
      else Opcode.newReferenceArray
  | .loadText _ => Opcode.loadConstant
  | .other opcode => opcode

structure Instruction where
  offset : UInt32
  opcode : UInt8
  operation : Operation
deriving DecidableEq, Repr

/-- The instruction that encodes an operation at an offset. -/
def Instruction.encoding (offset : UInt32) (operation : Operation) : Instruction :=
  ⟨offset, operation.opcode, operation⟩

end MethodPatch
