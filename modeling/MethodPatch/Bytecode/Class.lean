import MethodPatch.Bytecode.Instruction
import MethodPatch.Bytecode.LineTable
import MethodPatch.FirstMatch

set_option autoImplicit false

namespace MethodPatch

/-- The access flags that decide how a method may be called and overridden. -/
structure Access where
  isPublic : Bool
  isProtected : Bool
  isPrivate : Bool
  isStatic : Bool
  isAbstract : Bool
deriving DecidableEq, Repr

namespace Access

/-- No flag set: visible in its package only. -/
def packagePrivate : Access := ⟨false, false, false, false, false⟩

/-- Neither public nor protected, so out of reach for subclasses of other packages. -/
def isRestricted (access : Access) : Bool :=
  !access.isPublic && !access.isProtected

/-- Protected in place of private; the other flags stay. -/
def widened (access : Access) : Access :=
  { access with isPrivate := false, isProtected := true }

end Access

/-- A guarded range of a body, the offset that a caught exception continues at, and the type it
catches; without a type it catches every exception. -/
structure Handler where
  start : UInt32
  stop : UInt32
  entry : UInt32
  caught : Option String
deriving DecidableEq, Repr

structure Method where
  name : String
  descriptor : String
  access : Access
  /-- The raw body, or nothing where only the decoded form is known. -/
  bytecode : List UInt8
  instructions : List Instruction
  lines : List LineEntry
  handlers : List Handler
deriving DecidableEq, Repr

namespace Method

/-- The method goes by this name and descriptor. -/
def isNamed (method : Method) (name descriptor : String) : Bool :=
  method.name == name && method.descriptor == descriptor

/-- The calls of the body in instruction order. -/
def calls (method : Method) : List CallSite :=
  method.instructions.filterMap fun instruction =>
    match instruction.operation with
    | .invoke call => some call
    | _ => none

def lineAt (method : Method) (offset : UInt32) : Option UInt32 :=
  LineTable.lineAt method.lines offset

end Method

structure Class where
  name : String
  parent : Option String
  isInterface : Bool
  methods : List Method
  /-- The position, among the scanned files, of the one that the class was read from. -/
  artifact : Nat
deriving DecidableEq, Repr

namespace Class

def method? (owner : Class) (name descriptor : String) : Option Method :=
  owner.methods.find? (·.isNamed name descriptor)

/-- Changes the first method of this name and descriptor, if there is one. -/
def modifyMethod (owner : Class) (name descriptor : String) (change : Method → Method) : Class :=
  { owner with methods := FirstMatch.modify (·.isNamed name descriptor) change owner.methods }

end Class

end MethodPatch
