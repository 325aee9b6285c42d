import MethodPatch.Matching.Criteria

set_option autoImplicit false

namespace MethodPatch

inductive MatchError where
  /-- The one location asked for has not been found. -/
  | resultsNotReady
  | missingFinalMatcher
deriving DecidableEq, Repr

def MatchError.message : MatchError → String
  | .resultsNotReady => "no location found yet; check did_find_location() before reading results"
  | .missingFinalMatcher => "match sequence has no final matcher"

structure MatchSequence where
  before : List Matcher
  last : Matcher

/-- A sequence in the making. -/
structure MatchSequence.Draft where
  before : List Matcher
  last : Option Matcher

namespace MatchSequence

namespace Draft

def empty : Draft := ⟨[], none⟩

def andThen (draft : Draft) (matcher : Matcher) : Draft :=
  { draft with before := draft.before ++ [matcher] }

/-- Sets the last matcher, in place of one set earlier. -/
def andFinally (draft : Draft) (matcher : Matcher) : Draft :=
  { draft with last := some matcher }

def build (draft : Draft) : Except MatchError MatchSequence :=
  match draft.last with
  | some last => .ok ⟨draft.before, last⟩
  | none => .error .missingFinalMatcher

end Draft

/-- The kinds of the matchers, on one line. -/
def outline (sequence : MatchSequence) : String :=
  let before := ", ".intercalate (sequence.before.map fun matcher => matcher.kind.title)
  "MatchSequence \x7b prefix: [" ++ before ++ "], final: " ++ sequence.last.kind.title ++ " \x7d"

/-- The matcher to be asked once `passed` matchers have accepted an expression. -/
def matcherAt (sequence : MatchSequence) (passed : Nat) : Matcher :=
  sequence.before[passed]?.getD sequence.last

end MatchSequence

/-- A match sequence in written form. -/
structure SequenceSpec where
  before : List Criteria
  last : Option Criteria
deriving DecidableEq, Repr

namespace SequenceSpec

def draft (spec : SequenceSpec) : MatchSequence.Draft :=
  let opening := spec.before.foldl (fun draft criteria => draft.andThen criteria.matcher) .empty
  match spec.last with
  | some criteria => opening.andFinally criteria.matcher
  | none => opening

def compile (spec : SequenceSpec) : Except MatchError MatchSequence :=
  spec.draft.build

end SequenceSpec

end MethodPatch
