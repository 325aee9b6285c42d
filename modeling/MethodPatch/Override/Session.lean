import MethodPatch.Override.Candidate
import MethodPatch.TypeName

set_option autoImplicit false

namespace MethodPatch

/-- The special calls of `target` from its own class are to be made virtual. Those from other
classes reach past an override on purpose. -/
structure CallSiteRule where
  target : MethodKey
deriving DecidableEq, Repr

/-- The raw body has the opcode of a special call at the offset, or is not known at all. -/
def holdsInvokeSpecial (bytecode : List UInt8) (offset : UInt32) : Bool :=
  bytecode.isEmpty || bytecode[offset.toNat]? == some Opcode.invokeSpecial

namespace CallSiteRule

/-- The call, made from a method of the class `caller`, is one that the rule is for. -/
def appliesTo (rule : CallSiteRule) (caller : String) (call : CallSite) : Bool :=
  call.dispatch == .special && call.name == rule.target.name &&
    call.descriptor == rule.target.descriptor &&
    TypeName.same call.owner rule.target.owner && TypeName.same caller rule.target.owner

/-- The instruction is a call that the rule is for, and the raw body agrees. -/
def selects (rule : CallSiteRule) (caller : String) (method : Method)
    (instruction : Instruction) : Bool :=
  match instruction.operation with
  | .invoke call =>
      rule.appliesTo caller call && holdsInvokeSpecial method.bytecode instruction.offset
  | _ => false

end CallSiteRule

/-- The same call with virtual dispatch. -/
def Instruction.madeVirtual (instruction : Instruction) : Instruction :=
  match instruction.operation with
  | .invoke call =>
      ⟨instruction.offset, Opcode.invokeVirtual, .invoke { call with dispatch := .virtual }⟩
  | _ => instruction

/-- A body after its calls were changed: its instructions, its bytes, and how many calls changed. -/
structure PatchedBody where
  instructions : List Instruction
  bytecode : List UInt8
  changed : Nat
deriving DecidableEq, Repr

/-- The rules registered so far, oldest first, and the keys of the methods made overridable. -/
structure Session where
  rules : List CallSiteRule
  registered : List MethodKey
deriving DecidableEq, Repr

namespace Session

def start : Session := ⟨[], []⟩

def isRegistered (session : Session) (key : MethodKey) : Bool :=
  session.registered.contains key

end Session

/-- A session and the class that it is used on, both changed in place. -/
structure Workbench where
  session : Session
  owner : Class
deriving DecidableEq, Repr

namespace Workbench

/-- Widens the first method of the class that goes by this name and descriptor. -/
def widen (name descriptor : String) (bench : Workbench) : Workbench :=
  { bench with owner := bench.owner.modifyMethod name descriptor fun method =>
      { method with access := method.access.widened } }

def register (key : MethodKey) (bench : Workbench) : Workbench :=
  { bench with session :=
      { bench.session with registered := bench.session.registered.insert key } }

def addRule (rule : CallSiteRule) (bench : Workbench) : Workbench :=
  { bench with session := { bench.session with rules := bench.session.rules ++ [rule] } }

/-- Work on a bench, given up at the first refusal. Whatever was changed by then stays changed. -/
abbrev Work (α : Type) : Type := ExceptT OverrideError (StateM Workbench) α

/-- Does the work: the answer, and the bench after it. -/
def perform {α : Type} (work : Work α) (bench : Workbench) : Except OverrideError α × Workbench :=
  (work.run.run bench).run

/-- Widens a method and registers its rule, unless there is a reason against it. -/
def openMethod (name descriptor : String) : Work CallSiteRule := do
  let bench ← get
  let key : MethodKey := ⟨bench.owner.name, name, descriptor⟩
  match bench.owner.method? name descriptor with
  | none => throw (.notDeclared key)
  | some method =>
      if bench.session.isRegistered key then throw (.alreadyRegistered key)
      ofExcept (Candidate.check ⟨key, method.access, bench.owner.isInterface⟩)
      modify (widen name descriptor)
      modify (register key)
      modify (addRule ⟨key⟩)
      return ⟨key⟩

end Workbench

namespace Session

/-- Tries to make a method of the class overridable: the answer, and what the session and the class
are after it. -/
def attempt (session : Session) (owner : Class) (name descriptor : String) :
    Except OverrideError CallSiteRule × Workbench :=
  Workbench.perform (Workbench.openMethod name descriptor) ⟨session, owner⟩

/-- Widens a method of the class and registers its rule. The result is the changed session and
class. -/
def makeOverridable (session : Session) (owner : Class) (name descriptor : String) :
    Except OverrideError (Session × Class) :=
  match session.attempt owner name descriptor with
  | (.ok _, bench) => .ok (bench.session, bench.owner)
  | (.error reason, _) => .error reason

/-- Some rule is for this instruction. -/
def appliesTo (session : Session) (caller : String) (instruction : Instruction) : Bool :=
  match instruction.operation with
  | .invoke call => session.rules.any fun rule => rule.appliesTo caller call
  | _ => false

/-- Changes the calls of a run of instructions. Each decision looks at the bytes as the instructions
before it have left them. -/
def patchBody (session : Session) (caller : String) :
    List UInt8 → List Instruction → PatchedBody
  | bytecode, [] => ⟨[], bytecode, 0⟩
  | bytecode, instruction :: rest =>
      if session.appliesTo caller instruction &&
          holdsInvokeSpecial bytecode instruction.offset then
        let later := patchBody session caller
          (bytecode.set instruction.offset.toNat Opcode.invokeVirtual) rest
        ⟨instruction.madeVirtual :: later.instructions, later.bytecode, later.changed + 1⟩
      else
        let later := patchBody session caller bytecode rest
        ⟨instruction :: later.instructions, later.bytecode, later.changed⟩

/-- Applies the rules to a method of the class `caller`; also gives the number of changed calls. -/
def applyToMethod (session : Session) (caller : String) (method : Method) : Method × Nat :=
  let body := session.patchBody caller method.bytecode method.instructions
  ({ method with bytecode := body.bytecode, instructions := body.instructions }, body.changed)

/-- Applies the rules to every method of a class; also gives the number of changed calls. -/
def apply (session : Session) (owner : Class) : Class × Nat :=
  let applied := owner.methods.map (session.applyToMethod owner.name)
  ({ owner with methods := applied.map (·.1) },
    applied.foldr (fun (_, changed) total => changed + total) 0)

end Session

end MethodPatch
