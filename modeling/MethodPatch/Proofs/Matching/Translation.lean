import MethodPatch.Proofs.Matching.Step

set_option autoImplicit false

namespace MethodPatch

/-- The sequence answers about a translated visit as `original` does about the visit, and the
anchor of the translated visit is the moved one. -/
structure MatchSequence.Mirrors (sequence original : MatchSequence) (view : Visit → Visit)
    (move : Anchor → Anchor) : Prop where
  length : sequence.before.length = original.before.length
  accepts : ∀ passed shown,
    (sequence.matcherAt passed).accepts (view shown) = (original.matcherAt passed).accepts shown
  anchor : ∀ shown, (view shown).anchor = move shown.anchor

variable {sequence original : MatchSequence} {view : Visit → Visit} {move : Anchor → Anchor}

/-- A sequence that asks nothing but criteria answers alike about visits that no criteria tell
apart. -/
theorem MatchSequence.mirrors_of_criteria
    (asked : ∀ passed, ∃ criteria : Criteria, sequence.matcherAt passed = criteria.matcher)
    (accepts : ∀ (criteria : Criteria) (shown : Visit),
      criteria.matcher.accepts (view shown) = criteria.matcher.accepts shown)
    (anchor : ∀ shown, (view shown).anchor = move shown.anchor) :
    sequence.Mirrors sequence view move := by
  refine ⟨rfl, fun passed shown => ?_, anchor⟩
  obtain ⟨criteria, here⟩ := asked passed
  rw [here]
  exact accepts criteria shown

namespace FirstFinder

def moved (move : Anchor → Anchor) (finder : FirstFinder) : FirstFinder :=
  ⟨finder.passed, finder.found.map move⟩

theorem visit_moved (mirrors : sequence.Mirrors original view move) (finder : FirstFinder)
    (shown : Visit) :
    (finder.moved move).visit sequence (view shown) = (finder.visit original shown).moved move := by
  rw [visit_eq, visit_eq, moved, mirrors.accepts, mirrors.length, mirrors.anchor,
    Option.isSome_map]
  by_cases done : finder.found.isSome = true
  · rw [if_pos done, if_pos done, moved]
  · rw [if_neg done, if_neg done]
    by_cases accepted : (original.matcherAt finder.passed).accepts shown = true
    · rw [if_pos accepted, if_pos accepted]
      split <;> rfl
    · rw [if_neg accepted, if_neg accepted, moved]

theorem run_moved (mirrors : sequence.Mirrors original view move) (finder : FirstFinder)
    (visits : List Visit) :
    (finder.moved move).run sequence (visits.map view) =
      (finder.run original visits).moved move := by
  induction visits generalizing finder with
  | nil => rfl
  | cons shown rest ih =>
      have step := visit_moved mirrors finder shown
      have later := ih (finder.visit original shown)
      rw [← step] at later
      exact later

end FirstFinder

namespace AllFinder

def moved (move : Anchor → Anchor) (finder : AllFinder) : AllFinder :=
  ⟨finder.passed, finder.found.map move⟩

theorem visit_moved (mirrors : sequence.Mirrors original view move) (finder : AllFinder)
    (shown : Visit) :
    (finder.moved move).visit sequence (view shown) = (finder.visit original shown).moved move := by
  rw [visit_eq, visit_eq, moved, mirrors.accepts, mirrors.length, mirrors.anchor]
  by_cases accepted : (original.matcherAt finder.passed).accepts shown = true
  · rw [if_pos accepted, if_pos accepted]
    split
    · rfl
    · simp only [moved, List.map_append, List.map_singleton]
  · rw [if_neg accepted, if_neg accepted, moved]

theorem run_moved (mirrors : sequence.Mirrors original view move) (finder : AllFinder)
    (visits : List Visit) :
    (finder.moved move).run sequence (visits.map view) =
      (finder.run original visits).moved move := by
  induction visits generalizing finder with
  | nil => rfl
  | cons shown rest ih =>
      have step := visit_moved mirrors finder shown
      have later := ih (finder.visit original shown)
      rw [← step] at later
      exact later

end AllFinder

namespace Method

variable {owner renamed : String} {method other : Method}

/-- The first anchor of a translated walk is the moved one. -/
theorem locateFirst_moved (mirrors : sequence.Mirrors original view move)
    (walk : other.visits renamed = (method.visits owner).map view) :
    other.locateFirst renamed sequence = (method.locateFirst owner original).map move := by
  have runs := FirstFinder.run_moved mirrors .start (method.visits owner)
  rw [locateFirst, walk]
  exact congrArg FirstFinder.found runs

/-- The anchors of a translated walk are the moved ones. -/
theorem locateAll_moved (mirrors : sequence.Mirrors original view move)
    (walk : other.visits renamed = (method.visits owner).map view) :
    other.locateAll renamed sequence = (method.locateAll owner original).map move := by
  have runs := AllFinder.run_moved mirrors .start (method.visits owner)
  rw [locateAll, walk]
  exact congrArg AllFinder.found runs

end Method

end MethodPatch
