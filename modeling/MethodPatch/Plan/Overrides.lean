import MethodPatch.Failure
import MethodPatch.Override.Session

set_option autoImplicit false

namespace MethodPatch

/-- A method made overridable, and the number of its calls that changed their dispatch. -/
structure OverrideOutcome where
  method : MethodKey
  callSites : Nat
deriving DecidableEq, Repr

namespace OverrideOutcome

def atMost (first second : OverrideOutcome) : Bool := first.method.atMost second.method

end OverrideOutcome

/-- The number of calls in the classes that a rule selects. -/
def CallSiteRule.countCalls (rule : CallSiteRule) (classes : List Class) : Nat :=
  (classes.flatMap fun owner =>
    owner.methods.flatMap fun method =>
      method.instructions.filter (rule.selects owner.name method)).length

namespace OverrideRequest

/-- The class goes by the requested name, in any spelling. -/
def isFor (request : OverrideRequest) (owner : Class) : Bool :=
  TypeName.same owner.name request.className

/-- Registers one request with the first class of its name. -/
def register (request : OverrideRequest) (session : Session) (classes : List Class) :
    Except Failure (Session × List Class) :=
  match classes.find? request.isFor with
  | none => .error (.classNotLoaded request.className)
  | some owner =>
      match session.makeOverridable owner request.method request.descriptor with
      | .error reason => .error (.notOverridable request reason)
      | .ok (session, widened) =>
          .ok (session, FirstMatch.modify request.isFor (fun _ => widened) classes)

/-- Registers requests in order, up to the first that is refused. -/
def registerAll (session : Session) (classes : List Class) :
    List OverrideRequest → Except Failure (Session × List Class)
  | [] => .ok (session, classes)
  | request :: rest =>
      match request.register session classes with
      | .error failure => .error failure
      | .ok (session, classes) => registerAll session classes rest

end OverrideRequest

namespace PatchPlan

/-- What was made overridable, in order of the methods, and the classes after it. Every request is
registered before the rules are applied to all classes at once, and the calls of a method are
counted before any of them changes. -/
def applyOverrides (plan : PatchPlan) (classes : List Class) :
    Except Failure (List OverrideOutcome × List Class) :=
  match OverrideRequest.registerAll .start classes plan.overrides with
  | .error failure => .error failure
  | .ok (session, widened) =>
      let outcomes := session.rules.map fun rule => ⟨rule.target, rule.countCalls widened⟩
      .ok (outcomes.mergeSort OverrideOutcome.atMost,
        widened.map fun owner => (session.apply owner).1)

end PatchPlan

end MethodPatch
