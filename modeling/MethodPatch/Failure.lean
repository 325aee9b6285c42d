import MethodPatch.Override.Candidate
import MethodPatch.Plan.Basic

set_option autoImplicit false

namespace MethodPatch

inductive Failure where
  | inputNotFound (path : String)
  | planNotFound (path : String)
  /-- The file cannot be read. -/
  | unreadable (path : String)
  /-- The file does not hold what it should. -/
  | malformed (path : String)
  | invalidPlan (path : String) (fault : PlanFault)
  | faultyRequest (fault : PlanFault)
  | unsupportedInput (path : String)
  | classNotLoaded (name : String)
  | notOverridable (request : OverrideRequest) (reason : OverrideError)
  /-- The file cannot be written. -/
  | unopened (path : String)
  | anchorsNotFound (ids : List String)
deriving DecidableEq, Repr

/-- A link of a chain of causes. What lies outside the program has words of its own. -/
inductive Cause where
  | text (message : String)
  | jsonError
  | fileError
deriving DecidableEq, Repr

def PlanFault.chain : PlanFault → List Cause
  | .repeatedId id => [.text ("duplicate anchor id: " ++ id)]
  | .incompleteSequence id reason =>
      [.text ("invalid match sequence for anchor " ++ id), .text reason.message]

/-- How a failure is told: a chain of causes, the outermost first. -/
def Failure.chain : Failure → List Cause
  | .inputNotFound path => [.text ("input not found: " ++ path)]
  | .planNotFound path => [.text ("plan not found: " ++ path)]
  | .unreadable path => [.text ("failed to read " ++ path), .fileError]
  | .malformed path => [.text ("failed to parse " ++ path), .jsonError]
  | .invalidPlan path fault => .text ("invalid patch plan " ++ path) :: fault.chain
  | .faultyRequest fault => fault.chain
  | .unsupportedInput path => [.text ("unsupported input file: " ++ path)]
  | .classNotLoaded name => [.text ("class not loaded: " ++ name)]
  | .notOverridable request reason =>
      [.text ("failed to make " ++ request.className ++ "." ++ request.method ++
          request.descriptor ++ " overridable"), .text reason.message]
  | .unopened path => [.text ("failed to open " ++ path), .fileError]
  | .anchorsNotFound ids =>
      [.text ("required anchors not found: " ++ ", ".intercalate ids)]

end MethodPatch
