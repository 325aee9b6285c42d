import MethodPatch.Matching.Sequence

set_option autoImplicit false

namespace MethodPatch

/-- How many anchors of a method are asked for. -/
inductive Cardinality where
  | first
  | all
deriving DecidableEq, Repr

/-- An anchor asked for in the methods of a class that go by a name, and by a descriptor if one is
given. -/
structure AnchorRequest where
  id : String
  className : String
  method : String
  descriptor : Option String
  cardinality : Cardinality
  isRequired : Bool
  sequence : SequenceSpec
deriving DecidableEq, Repr

structure OverrideRequest where
  className : String
  method : String
  descriptor : String
deriving DecidableEq, Repr

structure PatchPlan where
  anchors : List AnchorRequest
  overrides : List OverrideRequest
deriving DecidableEq, Repr

/-- What is wrong with a plan. -/
inductive PlanFault where
  | repeatedId (id : String)
  | incompleteSequence (id : String) (reason : MatchError)
deriving DecidableEq, Repr

namespace AnchorRequest

def compile (request : AnchorRequest) : Except PlanFault MatchSequence :=
  match request.sequence.compile with
  | .ok sequence => .ok sequence
  | .error reason => .error (.incompleteSequence request.id reason)

/-- Checks requests in order, after those whose ids are in `seen`. -/
def validate (seen : List String) : List AnchorRequest → Except PlanFault Unit
  | [] => .ok ()
  | request :: rest =>
      if request.id ∈ seen then .error (.repeatedId request.id)
      else
        match request.compile with
        | .error fault => .error fault
        | .ok _ => validate (request.id :: seen) rest

end AnchorRequest

/-- The ids tell the anchors apart, and every sequence has a last matcher. -/
def PatchPlan.validate (plan : PatchPlan) : Except PlanFault Unit :=
  AnchorRequest.validate [] plan.anchors

end MethodPatch
