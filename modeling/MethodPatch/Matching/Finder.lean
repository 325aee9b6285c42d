import MethodPatch.Expression.Walk
import MethodPatch.Matching.Sequence

set_option autoImplicit false

namespace MethodPatch

/-- A place found for a patch. -/
structure Anchor where
  offset : UInt32
  line : Option UInt32
  kind : ExpressionKind
deriving DecidableEq, Repr

def Visit.anchor (visit : Visit) : Anchor :=
  ⟨visit.expression.position.offset, visit.expression.position.line, visit.kind⟩

/-- One question put to a matcher: how many matchers had passed, and what it answered. -/
structure Evaluation where
  step : Nat
  visit : Visit
  answer : Bool

/-- The question about a visit when `passed` matchers have passed; none where the kind of the visit
is not the matcher's. -/
def MatchSequence.evaluate (sequence : MatchSequence) (passed : Nat) (visit : Visit) :
    Option Evaluation :=
  let matcher := sequence.matcherAt passed
  if matcher.kind = visit.kind then
    some ⟨passed, visit, matcher.test visit.expression⟩
  else none

/-- Looks for the first anchor only. -/
structure FirstFinder where
  passed : Nat
  found : Option Anchor
deriving DecidableEq, Repr

namespace FirstFinder

def start : FirstFinder := ⟨0, none⟩

/-- Asks nothing once the anchor is found. -/
def evaluation (sequence : MatchSequence) (finder : FirstFinder) (shown : Visit) :
    Option Evaluation :=
  if finder.found.isSome then none else sequence.evaluate finder.passed shown

def visit (sequence : MatchSequence) (finder : FirstFinder) (shown : Visit) :
    FirstFinder :=
  match evaluation sequence finder shown with
  | none => finder
  | some asked =>
      if !asked.answer then finder
      else if finder.passed < sequence.before.length then
        { finder with passed := finder.passed + 1 }
      else { finder with found := some shown.anchor }

def run (sequence : MatchSequence) (finder : FirstFinder) (visits : List Visit) :
    FirstFinder :=
  visits.foldl (visit sequence) finder

/-- The questions put on the way, in order. -/
def trace (sequence : MatchSequence) : FirstFinder → List Visit → List Evaluation
  | _, [] => []
  | finder, shown :: rest =>
      (evaluation sequence finder shown).toList ++
        trace sequence (visit sequence finder shown) rest

def hasFound (finder : FirstFinder) : Bool := finder.found.isSome

def locations (finder : FirstFinder) : Except MatchError (List Anchor) :=
  match finder.found with
  | some anchor => .ok [anchor]
  | none => .error .resultsNotReady

end FirstFinder

/-- Looks for every anchor. -/
structure AllFinder where
  passed : Nat
  found : List Anchor
deriving DecidableEq, Repr

namespace AllFinder

def start : AllFinder := ⟨0, []⟩

def evaluation (sequence : MatchSequence) (finder : AllFinder) (shown : Visit) :
    Option Evaluation :=
  sequence.evaluate finder.passed shown

def visit (sequence : MatchSequence) (finder : AllFinder) (shown : Visit) : AllFinder :=
  match evaluation sequence finder shown with
  | none => finder
  | some asked =>
      if !asked.answer then finder
      else if finder.passed < sequence.before.length then
        { finder with passed := finder.passed + 1 }
      else { finder with found := finder.found ++ [shown.anchor] }

def run (sequence : MatchSequence) (finder : AllFinder) (visits : List Visit) :
    AllFinder :=
  visits.foldl (visit sequence) finder

/-- The questions put on the way, in order. -/
def trace (sequence : MatchSequence) : AllFinder → List Visit → List Evaluation
  | _, [] => []
  | finder, shown :: rest =>
      (evaluation sequence finder shown).toList ++
        trace sequence (visit sequence finder shown) rest

def hasFound (finder : AllFinder) : Bool := !finder.found.isEmpty

def locations (finder : AllFinder) : Except MatchError (List Anchor) := .ok finder.found

end AllFinder

namespace Method

/-- The first anchor of a sequence in a method of the class `owner`. -/
def locateFirst (owner : String) (method : Method) (sequence : MatchSequence) : Option Anchor :=
  (FirstFinder.start.run sequence (method.visits owner)).found

/-- Every anchor of a sequence in a method of the class `owner`, in the order of the walk. -/
def locateAll (owner : String) (method : Method) (sequence : MatchSequence) : List Anchor :=
  (AllFinder.start.run sequence (method.visits owner)).found

end Method

end MethodPatch
