import MethodPatch.Matching.Finder

set_option autoImplicit false

namespace MethodPatch

theorem FirstFinder.visit_eq (sequence : MatchSequence) (finder : FirstFinder) (shown : Visit) :
    finder.visit sequence shown =
      if finder.found.isSome = true then finder
      else if (sequence.matcherAt finder.passed).accepts shown = true then
        if finder.passed < sequence.before.length then { finder with passed := finder.passed + 1 }
        else { finder with found := some shown.anchor }
      else finder := by
  simp only [visit, evaluation, MatchSequence.evaluate, Matcher.accepts]
  generalize sequence.matcherAt finder.passed = matcher
  by_cases done : finder.found.isSome = true
  · simp [done]
  · by_cases asked : matcher.kind = shown.kind
    · by_cases answer : matcher.test shown.expression = true <;> simp [done, asked, answer]
    · simp [done, asked]

theorem AllFinder.visit_eq (sequence : MatchSequence) (finder : AllFinder) (shown : Visit) :
    finder.visit sequence shown =
      if (sequence.matcherAt finder.passed).accepts shown = true then
        if finder.passed < sequence.before.length then { finder with passed := finder.passed + 1 }
        else { finder with found := finder.found ++ [shown.anchor] }
      else finder := by
  simp only [visit, evaluation, MatchSequence.evaluate, Matcher.accepts]
  generalize sequence.matcherAt finder.passed = matcher
  by_cases asked : matcher.kind = shown.kind
  · by_cases answer : matcher.test shown.expression = true <;> simp [asked, answer]
  · simp [asked]

end MethodPatch
