import MethodPatch.Bytecode.Class

set_option autoImplicit false

namespace MethodPatch

inductive ExpressionKind where
  | methodCall
  | fieldAccess
  | constructorCall
  | objectConstruction
  | typeCast
  | typeCheck
  | arrayConstruction
  | exceptionHandlerEntry
deriving DecidableEq, Repr

namespace ExpressionKind

/-- The word for a kind in plans, reports and dumps. -/
def label : ExpressionKind → String
  | .methodCall => "method_call"
  | .fieldAccess => "field_access"
  | .constructorCall => "constructor_call"
  | .objectConstruction => "object_construction"
  | .typeCast => "type_cast"
  | .typeCheck => "type_check"
  | .arrayConstruction => "array_construction"
  | .exceptionHandlerEntry => "exception_handler_entry"

/-- The name of a kind in outlines of match sequences. -/
def title : ExpressionKind → String
  | .methodCall => "MethodCall"
  | .fieldAccess => "FieldAccess"
  | .constructorCall => "ConstructorCall"
  | .objectConstruction => "ObjectConstruction"
  | .typeCast => "TypeCast"
  | .typeCheck => "TypeCheck"
  | .arrayConstruction => "ArrayConstruction"
  | .exceptionHandlerEntry => "ExceptionHandlerEntry"

def all : List ExpressionKind :=
  [.methodCall, .fieldAccess, .constructorCall, .objectConstruction, .typeCast, .typeCheck,
    .arrayConstruction, .exceptionHandlerEntry]

end ExpressionKind

/-- A place of a body: an offset, and the source line that the line table gives it. -/
structure Position where
  offset : UInt32
  line : Option UInt32
deriving DecidableEq, Repr

/-- What an expression refers to. -/
inductive Detail where
  | call (site : CallSite)
  | field (use : FieldUse)
  /-- An initializer call together with the offset of the allocation that it completes. -/
  | construction (site : CallSite) (allocatedAt : UInt32)
  | type (name : String)
  | array (component : String) (dimensions : UInt8)
  | handler (entry : Handler)
deriving DecidableEq, Repr

/-- An expression of a method of the class `owner`. -/
structure Expression where
  kind : ExpressionKind
  owner : String
  method : Method
  position : Position
  detail : Detail
deriving DecidableEq, Repr

/-- What is handed to a finder: an expression, and the kind that it is handed over as. -/
structure Visit where
  kind : ExpressionKind
  expression : Expression
deriving DecidableEq, Repr

namespace Detail

/-- The type referred to: the owner of the member, the constructed, cast or checked type, the
component of an array, or the caught type. -/
def ownerType : Detail → Option String
  | .call site => some site.owner
  | .field use => some use.owner
  | .construction site _ => some site.owner
  | .type name => some name
  | .array component _ => some component
  | .handler entry => entry.caught

/-- The name of the called method or of the field. -/
def memberName : Detail → Option String
  | .call site => some site.name
  | .field use => some use.name
  | .construction site _ => some site.name
  | _ => none

def descriptor : Detail → Option String
  | .call site => some site.descriptor
  | .field use => some use.descriptor
  | .construction site _ => some site.descriptor
  | _ => none

/-- Whether a field is written; nothing where no field is used. -/
def writes : Detail → Option Bool
  | .field use => some use.isWrite
  | _ => none

end Detail

end MethodPatch
