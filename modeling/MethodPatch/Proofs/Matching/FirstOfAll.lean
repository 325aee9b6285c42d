import MethodPatch.Proofs.Matching.Compile
import MethodPatch.Proofs.Matching.Step

set_option autoImplicit false

namespace MethodPatch

/-- How the two finders stand to each other after the same visits. -/
structure InStep (sequence : MatchSequence) (first : FirstFinder) (all : AllFinder) : Prop where
  passed : first.passed = all.passed
  found : first.found = all.found.head?
  /-- There are no anchors before all matchers but the last have passed. -/
  complete : all.found ≠ [] → sequence.before.length ≤ all.passed

namespace InStep

variable {sequence : MatchSequence} {first : FirstFinder} {all : AllFinder}

theorem start (sequence : MatchSequence) : InStep sequence .start .start :=
  ⟨rfl, rfl, fun nonempty => absurd rfl nonempty⟩

theorem visit (inStep : InStep sequence first all) (shown : Visit) :
    InStep sequence (first.visit sequence shown) (all.visit sequence shown) := by
  obtain ⟨passed, found, complete⟩ := inStep
  rw [FirstFinder.visit_eq, AllFinder.visit_eq]
  cases held : all.found with
  | nil =>
      have seeking : ¬ first.found.isSome = true := by simp [found, held]
      rw [if_neg seeking, passed]
      by_cases accepted : (sequence.matcherAt all.passed).accepts shown = true
      · rw [if_pos accepted, if_pos accepted]
        by_cases more : all.passed < sequence.before.length
        · rw [if_pos more, if_pos more]
          exact ⟨rfl, by simp [found, held], fun nonempty => absurd rfl nonempty⟩
        · rw [if_neg more, if_neg more]
          exact ⟨rfl, rfl, fun _ => Nat.le_of_not_lt more⟩
      · rw [if_neg accepted, if_neg accepted]
        exact ⟨passed, found, complete⟩
  | cons anchor rest =>
      -- An anchor is there already, so the cursor stays and only the end of the list may change.
      have finished : first.found.isSome = true := by simp [found, held]
      have exhausted : sequence.before.length ≤ all.passed := complete (by simp [held])
      rw [if_pos finished, if_neg (Nat.not_lt_of_le exhausted)]
      split
      · exact ⟨passed, by simp [found, held], fun _ => exhausted⟩
      · exact ⟨passed, found, complete⟩

/-- The finders stay in step through every list of visits. -/
theorem run (inStep : InStep sequence first all) (visits : List Visit) :
    InStep sequence (first.run sequence visits) (all.run sequence visits) := by
  induction visits generalizing first all with
  | nil => exact inStep
  | cons shown rest ih => exact ih (inStep.visit shown)

end InStep

/-- A finder that has found its anchor stands still. -/
theorem FirstFinder.run_of_hasFound (sequence : MatchSequence) {finder : FirstFinder}
    (done : finder.hasFound = true) (visits : List Visit) :
    finder.run sequence visits = finder := by
  induction visits with
  | nil => rfl
  | cons shown rest ih =>
      have still : finder.visit sequence shown = finder := by
        rw [FirstFinder.visit_eq]
        exact if_pos done
      rw [FirstFinder.run, List.foldl_cons, still]
      exact ih

/-- Anchors are added at the end, and none is ever taken back. -/
theorem AllFinder.found_visit (sequence : MatchSequence) (finder : AllFinder) (shown : Visit) :
    finder.found <+: (finder.visit sequence shown).found := by
  rw [AllFinder.visit_eq]
  split
  · split
    · exact List.prefix_rfl
    · exact List.prefix_append finder.found [shown.anchor]
  · exact List.prefix_rfl

theorem AllFinder.found_run (sequence : MatchSequence) (finder : AllFinder)
    (visits : List Visit) : finder.found <+: (finder.run sequence visits).found := by
  induction visits generalizing finder with
  | nil => exact List.prefix_rfl
  | cons shown rest ih => exact (finder.found_visit sequence shown).trans (ih _)

/-- The first anchor in a method is the first of all its anchors. -/
theorem Method.locateFirst_eq_head? (owner : String) (method : Method) (sequence : MatchSequence) :
    method.locateFirst owner sequence = (method.locateAll owner sequence).head? :=
  ((InStep.start sequence).run (method.visits owner)).found

namespace InStep

variable {sequence : MatchSequence} {first : FirstFinder} {all : AllFinder}

theorem hasFound_eq (inStep : InStep sequence first all) : first.hasFound = all.hasFound := by
  rw [FirstFinder.hasFound, AllFinder.hasFound, inStep.found]
  cases all.found <;> rfl

/-- What one finder reports is told by what the other does. -/
theorem locations_eq (inStep : InStep sequence first all) :
    first.locations =
      match all.found with
      | [] => .error .resultsNotReady
      | anchor :: _ => .ok [anchor] := by
  rw [FirstFinder.locations, inStep.found]
  cases all.found <;> rfl

/-- The finders stay in step from one walk to the next. -/
theorem walks (inStep : InStep sequence first all) (walks : List (List Visit)) :
    InStep sequence (walks.foldl (FirstFinder.run sequence) first)
      (walks.foldl (AllFinder.run sequence) all) := by
  induction walks generalizing first all with
  | nil => exact inStep
  | cons visits rest ih => exact ih (inStep.run visits)

end InStep

/-- After any visits, of one walk or of several and wherever the last one is left, the finder of the
first anchor reports the first of what the finder of all anchors reports: both have found something
or neither has, and the one is not ready exactly as long as the other has nothing. No further visits
change the first anchor, and they add to all anchors at the end only. -/
theorem first_heads_all (sequence : MatchSequence) (walks : List (List Visit)) :
    let first := walks.foldl (FirstFinder.run sequence) .start
    let all := walks.foldl (AllFinder.run sequence) .start
    first.hasFound = all.hasFound ∧
      (first.locations = .error .resultsNotReady ↔ all.locations = .ok []) ∧
      (∀ anchor rest, all.locations = .ok (anchor :: rest) → first.locations = .ok [anchor]) ∧
      (∀ later, first.hasFound = true → first.run sequence later = first) ∧
      (∀ later, all.found <+: (all.run sequence later).found) ∧
      ∀ (owner : String) (method : Method),
        method.locateFirst owner sequence = (method.locateAll owner sequence).head? := by
  intro first all
  have inStep : InStep sequence first all := (InStep.start sequence).walks walks
  have reported := inStep.locations_eq
  refine ⟨inStep.hasFound_eq, ?_, ?_, ?_, ?_, ?_⟩
  · rw [reported, AllFinder.locations]
    cases all.found <;> simp
  · intro anchor rest located
    have held : all.found = anchor :: rest := Except.ok.inj located
    rw [reported, held]
  · exact fun later done => FirstFinder.run_of_hasFound sequence done later
  · exact fun later => all.found_run sequence later
  · exact fun owner method => method.locateFirst_eq_head? owner sequence

/-- Two walks over a body that calls twice what is looked for, and the first of them once more up to
its first call: one finder has kept its anchor, the other has four. -/
theorem first_heads_all_two_walks :
    let tick (offset : UInt32) : Instruction :=
      .encoding offset (.invoke ⟨"app/Hud", "tick", "()V", .virtual, offset⟩)
    let method : Method :=
      ⟨"loop", "()V", .packagePrivate, [], [.encoding 0 (.checkCast "app/Hud"), tick 3, tick 6],
        [], []⟩
    let sequence := MatchSequence.ofCriteria [.ofKind .typeCast] (.methodCall "tick")
    let walk := method.visits "app/Hud"
    let all := [walk, walk].foldl (AllFinder.run sequence) .start
    let first := [walk, walk].foldl (FirstFinder.run sequence) .start
    all.locations = .ok [⟨3, none, .methodCall⟩, ⟨6, none, .methodCall⟩, ⟨3, none, .methodCall⟩,
        ⟨6, none, .methodCall⟩] ∧
      first.locations = .ok [⟨3, none, .methodCall⟩] ∧
      first.run sequence (walk.take 2) = first := by
  intro tick method sequence walk all first
  have held : all.found = [⟨3, none, .methodCall⟩, ⟨6, none, .methodCall⟩,
      ⟨3, none, .methodCall⟩, ⟨6, none, .methodCall⟩] := by decide +kernel
  have located := congrArg (@Except.ok MatchError (List Anchor)) held
  have done : first.hasFound = true := by decide +kernel
  obtain ⟨_, _, head, still, _⟩ := first_heads_all sequence [walk, walk]
  exact ⟨located, head _ _ located, still (walk.take 2) done⟩

end MethodPatch
