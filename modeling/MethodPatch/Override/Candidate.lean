import MethodPatch.Bytecode.Class
import MethodPatch.Text

set_option autoImplicit false

namespace MethodPatch

/-- What tells a method from every other: the class that declares it, its name and descriptor. -/
structure MethodKey where
  owner : String
  name : String
  descriptor : String
deriving DecidableEq, Repr

namespace MethodKey

def text (key : MethodKey) : String := key.owner ++ "." ++ key.name ++ key.descriptor

/-- Keys in order of their owners, then names, then descriptors. -/
def atMost (first second : MethodKey) : Bool :=
  if first.owner ≠ second.owner then Text.atMost first.owner second.owner
  else if first.name ≠ second.name then Text.atMost first.name second.name
  else Text.atMost first.descriptor second.descriptor

/-- Names with an opening angle bracket are those of initializers. -/
def isInitializer (key : MethodKey) : Bool := key.name.toList.head? == some '<'

end MethodKey

/-- What keeps a method from being made overridable. -/
inductive Obstacle where
  /-- Without a receiver there is nothing to dispatch on. -/
  | static
  /-- Initializers are never dispatched. -/
  | initializer
  /-- Public and protected methods can be overridden as they are. -/
  | notRestricted
  /-- Methods of an interface cannot be protected. -/
  | interfaceOwner
deriving DecidableEq, Repr

def Obstacle.message : Obstacle → String
  | .static => "method is static"
  | .initializer => "method is an initializer"
  | .notRestricted => "method is already public or protected"
  | .interfaceOwner => "method is declared on an interface"

inductive OverrideError where
  | notDeclared (key : MethodKey)
  | alreadyRegistered (key : MethodKey)
  | obstructed (key : MethodKey) (obstacle : Obstacle)
deriving DecidableEq, Repr

def OverrideError.message : OverrideError → String
  | .notDeclared key => "method " ++ key.text ++ " is not declared on its class"
  | .alreadyRegistered key => key.text ++ " is already rewritten in this session"
  | .obstructed key obstacle => "cannot rewrite " ++ key.text ++ ": " ++ obstacle.message

/-- A method considered for overriding, with the facts that decide. -/
structure Candidate where
  key : MethodKey
  access : Access
  ownerIsInterface : Bool
deriving DecidableEq, Repr

namespace Candidate

def of (owner : Class) (method : Method) : Candidate :=
  ⟨⟨owner.name, method.name, method.descriptor⟩, method.access, owner.isInterface⟩

/-- The first obstacle in the order in which the obstacles are named. -/
def obstacle? (candidate : Candidate) : Option Obstacle :=
  if candidate.access.isStatic then some .static
  else if candidate.key.isInitializer then some .initializer
  else if !candidate.access.isRestricted then some .notRestricted
  else if candidate.ownerIsInterface then some .interfaceOwner
  else none

def check (candidate : Candidate) : Except OverrideError Unit :=
  match candidate.obstacle? with
  | some obstacle => .error (.obstructed candidate.key obstacle)
  | none => .ok ()

end Candidate

end MethodPatch
