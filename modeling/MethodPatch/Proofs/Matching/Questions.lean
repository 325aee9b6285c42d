import MethodPatch.Proofs.Matching.Step
import Mathlib.Data.List.Induction

set_option autoImplicit false

namespace MethodPatch

namespace MatchSequence

/-- All matchers in the order of their turns. -/
def matchers (sequence : MatchSequence) : List Matcher := sequence.before ++ [sequence.last]

/-- How often the matcher at a step has accepted. -/
def acceptances (step : Nat) (log : List Evaluation) : Nat :=
  log.countP fun entry => entry.step == step && entry.answer

/-- The step whose turn comes after a log: one step for every acceptance of a matcher before the
last. -/
def turn (sequence : MatchSequence) (log : List Evaluation) : Nat :=
  log.countP fun entry => decide (entry.step < sequence.before.length) && entry.answer

/-- The last matcher has accepted a visit. -/
def hasEnded (sequence : MatchSequence) (log : List Evaluation) : Bool :=
  log.any fun entry => entry.step == sequence.before.length && entry.answer

/-- The question that follows a log at a visit: it goes to the matcher whose turn it is, and only if
the visit is of its kind. -/
def questions (sequence : MatchSequence) (log : List Evaluation) (shown : Visit) :
    List Evaluation :=
  let matcher := sequence.matcherAt (sequence.turn log)
  if matcher.kind = shown.kind then
    [⟨sequence.turn log, shown, matcher.test shown.expression⟩]
  else []

/-- What holds of the questions about a list of visits. -/
structure IsOrderly (sequence : MatchSequence) (visits : List Visit) (log : List Evaluation) :
    Prop where
  /-- There is at most one question about each visit, and the questions follow the visits. -/
  oneEach : (log.map (·.visit)).Sublist visits
  /-- Each step has a matcher, which is asked about visits of its kind only. -/
  asked : ∀ entry ∈ log, ∃ matcher, sequence.matchers[entry.step]? = some matcher ∧
    matcher.kind = entry.visit.kind ∧ entry.answer = matcher.test entry.visit.expression
  ascending : log.Pairwise fun entry later => entry.step ≤ later.step
  /-- A matcher is asked once all before it have accepted, each of them one visit. -/
  reached : ∀ earlier entry later, log = earlier ++ entry :: later →
    ∀ step < entry.step, acceptances step earlier = 1
  /-- A matcher before the last that has accepted is not asked again. -/
  settled : log.Pairwise fun entry later =>
    entry.answer = true → entry.step < sequence.before.length → later.step ≠ entry.step

/-- A log that grows from visit to visit, by no more than the question that follows it. -/
inductive IsLog (sequence : MatchSequence) : List Visit → List Evaluation → Prop where
  | start : IsLog sequence [] []
  | skip {visits : List Visit} {log : List Evaluation} (shown : Visit)
      (logged : IsLog sequence visits log) : IsLog sequence (visits ++ [shown]) log
  | ask {visits : List Visit} {log : List Evaluation} (shown : Visit)
      (logged : IsLog sequence visits log) :
      IsLog sequence (visits ++ [shown]) (log ++ sequence.questions log shown)

variable {sequence : MatchSequence} {log : List Evaluation}

theorem acceptances_snoc (step : Nat) (log : List Evaluation) (entry : Evaluation) :
    acceptances step (log ++ [entry]) =
      acceptances step log + if entry.step = step ∧ entry.answer = true then 1 else 0 := by
  rw [acceptances, List.countP_append, List.countP_singleton, acceptances]
  simp only [Bool.and_eq_true, beq_iff_eq]

theorem turn_snoc (sequence : MatchSequence) (log : List Evaluation) (entry : Evaluation) :
    sequence.turn (log ++ [entry]) = sequence.turn log +
      if entry.step < sequence.before.length ∧ entry.answer = true then 1 else 0 := by
  rw [turn, List.countP_append, List.countP_singleton, turn]
  simp only [Bool.and_eq_true, decide_eq_true_eq]

theorem hasEnded_snoc (sequence : MatchSequence) (log : List Evaluation) (entry : Evaluation) :
    sequence.hasEnded (log ++ [entry]) = true ↔
      sequence.hasEnded log = true ∨
        entry.step = sequence.before.length ∧ entry.answer = true := by
  simp only [hasEnded, List.any_append, List.any_cons, List.any_nil, Bool.or_false, Bool.or_eq_true,
    Bool.and_eq_true, beq_iff_eq]

theorem getElem?_matchers (sequence : MatchSequence) {step : Nat}
    (inside : step ≤ sequence.before.length) :
    sequence.matchers[step]? = some (sequence.matcherAt step) := by
  rw [matchers, matcherAt]
  rcases Nat.lt_or_eq_of_le inside with more | all
  · rw [List.getElem?_append_left more, List.getElem?_eq_getElem more, Option.getD_some]
  · rw [all, List.getElem?_concat_length, List.getElem?_eq_none (Nat.le_refl _), Option.getD_none]

/-- What a log tells of the matchers: those before the turn have accepted one visit each, and those
from the turn on, but for the last, none. -/
structure Tells (sequence : MatchSequence) (log : List Evaluation) : Prop where
  turn_le : sequence.turn log ≤ sequence.before.length
  step_le : ∀ entry ∈ log, entry.step ≤ sequence.turn log
  acceptances_eq : ∀ step < sequence.before.length,
    acceptances step log = if step < sequence.turn log then 1 else 0

theorem tells_nil (sequence : MatchSequence) : sequence.Tells [] := by
  refine ⟨Nat.zero_le _, ?_, ?_⟩
  · intro entry member
    cases member
  · intro step _
    exact (if_neg (Nat.not_lt_zero step)).symm

theorem Tells.snoc (tells : sequence.Tells log) {entry : Evaluation}
    (here : entry.step = sequence.turn log) : sequence.Tells (log ++ [entry]) := by
  obtain ⟨turn_le, step_le, acceptances_eq⟩ := tells
  have turned := sequence.turn_snoc log entry
  have grows : sequence.turn log ≤ sequence.turn (log ++ [entry]) := turned ▸ Nat.le_add_right _ _
  refine ⟨?_, ?_, ?_⟩
  · rw [turned]
    split
    · rename_i advances
      exact here ▸ advances.1
    · exact turn_le
  · intro other member
    rcases List.mem_append.mp member with before | last
    · exact Nat.le_trans (step_le other before) grows
    · rw [List.mem_singleton.mp last, here]
      exact grows
  · intro step inside
    rw [acceptances_snoc, acceptances_eq step inside, turned]
    by_cases advances : entry.step < sequence.before.length ∧ entry.answer = true
    · -- The turn moves past the matcher that accepts, and no other count changes.
      rw [if_pos advances]
      by_cases same : entry.step = step
      · have counted : entry.step = step ∧ entry.answer = true := ⟨same, advances.2⟩
        have now : ¬ step < sequence.turn log := by omega
        have later : step < sequence.turn log + 1 := by omega
        rw [if_pos counted, if_neg now, if_pos later]
      · have uncounted : ¬ (entry.step = step ∧ entry.answer = true) := fun both => same both.1
        rw [if_neg uncounted, Nat.add_zero]
        exact if_congr (by omega) rfl rfl
    · have uncounted : ¬ (entry.step = step ∧ entry.answer = true) :=
        fun both => advances ⟨both.1 ▸ inside, both.2⟩
      rw [if_neg advances, if_neg uncounted, Nat.add_zero, Nat.add_zero]

/-- A matcher before the last that has accepted has had its turn. -/
theorem Tells.step_lt (tells : sequence.Tells log) {entry : Evaluation} (member : entry ∈ log)
    (accepted : entry.answer = true) (inside : entry.step < sequence.before.length) :
    entry.step < sequence.turn log := by
  have counted : 0 < acceptances entry.step log := by
    refine List.countP_pos_iff.mpr ⟨entry, member, ?_⟩
    rw [accepted, beq_self_eq_true, Bool.and_true]
  have told := tells.acceptances_eq entry.step inside
  by_cases less : entry.step < sequence.turn log
  · exact less
  · rw [if_neg less] at told
    omega

/-- A further visit without a question. -/
theorem IsOrderly.skip {visits : List Visit} (orderly : sequence.IsOrderly visits log)
    (shown : Visit) : sequence.IsOrderly (visits ++ [shown]) log :=
  { orderly with oneEach := orderly.oneEach.trans (List.sublist_append_left visits [shown]) }

/-- A further visit about which the matcher is asked whose turn it is. -/
theorem IsOrderly.ask {visits : List Visit} (orderly : sequence.IsOrderly visits log)
    (tells : sequence.Tells log) (shown : Visit)
    (kind : (sequence.matcherAt (sequence.turn log)).kind = shown.kind) :
    sequence.IsOrderly (visits ++ [shown])
      (log ++ [⟨sequence.turn log, shown,
        (sequence.matcherAt (sequence.turn log)).test shown.expression⟩]) := by
  refine ⟨?_, ?_, ?_, ?_, ?_⟩
  · rw [List.map_append, List.map_singleton]
    exact orderly.oneEach.append (List.Sublist.refl [shown])
  · intro entry member
    rcases List.mem_append.mp member with before | last
    · exact orderly.asked entry before
    · rw [List.mem_singleton.mp last]
      exact ⟨_, sequence.getElem?_matchers tells.turn_le, kind, rfl⟩
  · refine List.pairwise_append.mpr ⟨orderly.ascending, List.pairwise_singleton _ _, ?_⟩
    intro entry member later last
    rw [List.mem_singleton.mp last]
    exact tells.step_le entry member
  · intro earlier entry later split step less
    rcases List.eq_nil_or_concat later with rfl | ⟨others, final, rfl⟩
    · -- The entry is the new question.
      obtain ⟨rfl, same⟩ := List.append_inj' split rfl
      rw [← List.singleton_inj.mp same] at less
      exact (tells.acceptances_eq step (Nat.lt_of_lt_of_le less tells.turn_le)).trans (if_pos less)
    · rw [List.concat_eq_append, ← List.cons_append, ← List.append_assoc] at split
      exact orderly.reached earlier entry others (List.append_inj' split rfl).1 step less
  · refine List.pairwise_append.mpr ⟨orderly.settled, List.pairwise_singleton _ _, ?_⟩
    intro entry member later last accepted inside
    rw [List.mem_singleton.mp last]
    exact Nat.ne_of_gt (tells.step_lt member accepted inside)

/-- The step and the run: a log that grows by the question that follows it stays in order. -/
theorem IsLog.tells_and_isOrderly {visits : List Visit} (logged : sequence.IsLog visits log) :
    sequence.Tells log ∧ sequence.IsOrderly visits log := by
  induction logged with
  | start =>
      refine ⟨sequence.tells_nil, List.Sublist.refl [], ?_, List.Pairwise.nil, ?_,
        List.Pairwise.nil⟩
      · intro entry member
        cases member
      · intro earlier entry later split
        exact absurd split.symm (List.append_ne_nil_of_right_ne_nil earlier (List.cons_ne_nil _ _))
  | skip shown _ ih => exact ⟨ih.1, ih.2.skip shown⟩
  | @ask visits log shown _ ih =>
      rw [questions]
      split
      · rename_i kind
        exact ⟨ih.1.snoc rfl, ih.2.ask ih.1 shown kind⟩
      · rw [List.append_nil]
        exact ⟨ih.1, ih.2.skip shown⟩

/-- The question that a finder puts when it stands where its log says. -/
theorem toList_evaluate (sequence : MatchSequence) (log : List Evaluation) (shown : Visit) :
    (sequence.evaluate (sequence.turn log) shown).toList = sequence.questions log shown := by
  rw [evaluate, questions]
  split <;> rfl

/-- The turn moves on exactly when a matcher before the last is asked and accepts. -/
theorem turn_questions (sequence : MatchSequence) (log : List Evaluation) (shown : Visit) :
    sequence.turn (log ++ sequence.questions log shown) =
      if (sequence.matcherAt (sequence.turn log)).accepts shown = true then
        if sequence.turn log < sequence.before.length then sequence.turn log + 1
        else sequence.turn log
      else sequence.turn log := by
  rw [questions, Matcher.accepts]
  generalize sequence.matcherAt (sequence.turn log) = matcher
  by_cases kind : matcher.kind = shown.kind
  · rw [if_pos kind, turn_snoc, kind, beq_self_eq_true, Bool.true_and]
    by_cases accepted : matcher.test shown.expression = true
    · simp only [accepted, and_true, if_true]
      split <;> rfl
    · rw [if_neg accepted, if_neg (not_and_of_not_right _ accepted), Nat.add_zero]
  · simp only [kind, beq_eq_false_iff_ne.mpr kind, if_false, List.append_nil, Bool.false_and]
    rfl

theorem hasEnded_questions (sequence : MatchSequence) (log : List Evaluation) (shown : Visit) :
    sequence.hasEnded (log ++ sequence.questions log shown) = true ↔
      sequence.hasEnded log = true ∨ sequence.turn log = sequence.before.length ∧
        (sequence.matcherAt (sequence.turn log)).accepts shown = true := by
  rw [questions, Matcher.accepts]
  generalize sequence.matcherAt (sequence.turn log) = matcher
  by_cases kind : matcher.kind = shown.kind
  · rw [if_pos kind, hasEnded_snoc, kind, beq_self_eq_true, Bool.true_and]
  · simp [kind, beq_eq_false_iff_ne.mpr kind]

theorem IsLog.tells {visits : List Visit} (logged : sequence.IsLog visits log) :
    sequence.Tells log :=
  logged.tells_and_isOrderly.1

theorem IsLog.isOrderly {visits : List Visit} (logged : sequence.IsLog visits log) :
    sequence.IsOrderly visits log :=
  logged.tells_and_isOrderly.2

end MatchSequence

namespace AllFinder

theorem trace_append (sequence : MatchSequence) (finder : AllFinder) (seen later : List Visit) :
    finder.trace sequence (seen ++ later) =
      finder.trace sequence seen ++ (finder.run sequence seen).trace sequence later := by
  induction seen generalizing finder with
  | nil => rfl
  | cons shown rest ih =>
      rw [List.cons_append, trace, trace, ih, List.append_assoc]
      rfl

/-- A finder stands where its log says. -/
theorem passed_run (sequence : MatchSequence) (visits : List Visit) :
    (start.run sequence visits).passed = sequence.turn (start.trace sequence visits) := by
  induction visits using List.reverseRecOn with
  | nil => rfl
  | append_singleton seen shown ih =>
      have asked : (start.run sequence seen).trace sequence [shown] =
          sequence.questions (start.trace sequence seen) shown := by
        rw [trace, trace, List.append_nil, evaluation, ih, sequence.toList_evaluate]
      rw [trace_append, asked, sequence.turn_questions, run, List.foldl_append]
      show ((start.run sequence seen).visit sequence shown).passed = _
      rw [visit_eq, ih]
      split
      · split <;> rfl
      · exact ih

/-- The finder of all anchors asks the matcher whose turn it is about every visit of its kind. -/
theorem trace_snoc (sequence : MatchSequence) (seen : List Visit) (shown : Visit) :
    start.trace sequence (seen ++ [shown]) = start.trace sequence seen ++
      sequence.questions (start.trace sequence seen) shown := by
  rw [trace_append, trace, trace, List.append_nil, evaluation, passed_run,
    sequence.toList_evaluate]

theorem isLog_trace (sequence : MatchSequence) (visits : List Visit) :
    sequence.IsLog visits (start.trace sequence visits) := by
  induction visits using List.reverseRecOn with
  | nil => exact .start
  | append_singleton seen shown ih =>
      rw [trace_snoc]
      exact .ask shown ih

end AllFinder

namespace FirstFinder

/-- The finder stands where a log says: at its turn, with an anchor once the last matcher has
accepted. -/
structure StandsAt (sequence : MatchSequence) (finder : FirstFinder) (log : List Evaluation) :
    Prop where
  passed : finder.passed = sequence.turn log
  found : finder.found.isSome = true ↔ sequence.hasEnded log = true

theorem trace_append (sequence : MatchSequence) (finder : FirstFinder) (seen later : List Visit) :
    finder.trace sequence (seen ++ later) =
      finder.trace sequence seen ++ (finder.run sequence seen).trace sequence later := by
  induction seen generalizing finder with
  | nil => rfl
  | cons shown rest ih =>
      rw [List.cons_append, trace, trace, ih, List.append_assoc]
      rfl

/-- What the finder asks at a visit. -/
theorem StandsAt.trace_singleton {sequence : MatchSequence} {finder : FirstFinder}
    {log : List Evaluation} (stands : finder.StandsAt sequence log) (shown : Visit) :
    finder.trace sequence [shown] =
      if sequence.hasEnded log = true then [] else sequence.questions log shown := by
  rw [trace, trace, List.append_nil, evaluation, stands.passed]
  by_cases ended : sequence.hasEnded log = true
  · rw [if_pos ended, if_pos (stands.found.mpr ended)]
    rfl
  · rw [if_neg ended, if_neg (mt stands.found.mp ended), sequence.toList_evaluate]

theorem StandsAt.visit {sequence : MatchSequence} {finder : FirstFinder} {log : List Evaluation}
    (stands : finder.StandsAt sequence log) (tells : sequence.Tells log) (shown : Visit) :
    (finder.visit sequence shown).StandsAt sequence
      (log ++ finder.trace sequence [shown]) := by
  rw [stands.trace_singleton, visit_eq]
  by_cases ended : sequence.hasEnded log = true
  · rw [if_pos ended, if_pos (stands.found.mpr ended), List.append_nil]
    exact stands
  · have seeking : ¬ finder.found.isSome = true := mt stands.found.mp ended
    rw [if_neg ended, if_neg seeking]
    refine ⟨?_, ?_⟩
    · rw [sequence.turn_questions, stands.passed]
      split
      · split <;> rfl
      · exact stands.passed
    · rw [sequence.hasEnded_questions, stands.passed]
      by_cases accepted : (sequence.matcherAt (sequence.turn log)).accepts shown = true
      · rw [if_pos accepted]
        by_cases more : sequence.turn log < sequence.before.length
        · rw [if_pos more]
          simp [seeking, ended, Nat.ne_of_lt more]
        · have all : sequence.turn log = sequence.before.length :=
            Nat.le_antisymm tells.turn_le (Nat.le_of_not_lt more)
          rw [if_neg more]
          exact ⟨fun _ => Or.inr ⟨all, accepted⟩, fun _ => rfl⟩
      · rw [if_neg accepted]
        simp [seeking, ended, accepted]

/-- A finder and its log go through the visits together. -/
theorem standsAt_and_isLog (sequence : MatchSequence) (visits : List Visit) :
    (start.run sequence visits).StandsAt sequence (start.trace sequence visits) ∧
      sequence.IsLog visits (start.trace sequence visits) := by
  induction visits using List.reverseRecOn with
  | nil => exact ⟨⟨rfl, Iff.rfl⟩, .start⟩
  | append_singleton seen shown ih =>
      obtain ⟨stands, logged⟩ := ih
      rw [trace_append, run, List.foldl_append]
      refine ⟨stands.visit logged.tells shown, ?_⟩
      rw [stands.trace_singleton]
      split
      · rw [List.append_nil]
        exact .skip shown logged
      · exact .ask shown logged

/-- The finder of the first anchor asks as the other does until the last matcher has accepted, and
nothing from then on. -/
theorem trace_snoc (sequence : MatchSequence) (seen : List Visit) (shown : Visit) :
    start.trace sequence (seen ++ [shown]) = start.trace sequence seen ++
      if sequence.hasEnded (start.trace sequence seen) = true then []
      else sequence.questions (start.trace sequence seen) shown := by
  rw [trace_append, (standsAt_and_isLog sequence seen).1.trace_singleton]

end FirstFinder

/-- The questions of a finder are in order, whatever its visits. One more visit adds at most one
question: one to the matcher whose turn it is if the visit is of its kind, and none otherwise; but a
finder of the first anchor asks nothing once the last matcher has accepted. The turn, which is where
the finder stands, is never past the last matcher. -/
theorem questions_in_turn (sequence : MatchSequence) (visits : List Visit) :
    let first := FirstFinder.start.trace sequence visits
    let all := AllFinder.start.trace sequence visits
    sequence.IsOrderly visits first ∧ sequence.IsOrderly visits all ∧
      (∀ shown, FirstFinder.start.trace sequence (visits ++ [shown]) =
        first ++ if sequence.hasEnded first = true then [] else sequence.questions first shown) ∧
      (∀ shown, AllFinder.start.trace sequence (visits ++ [shown]) =
        all ++ sequence.questions all shown) ∧
      (FirstFinder.start.run sequence visits).passed = sequence.turn first ∧
      (AllFinder.start.run sequence visits).passed = sequence.turn all ∧
      sequence.turn first ≤ sequence.before.length ∧
      sequence.turn all ≤ sequence.before.length := by
  intro first all
  obtain ⟨stands, logged⟩ := FirstFinder.standsAt_and_isLog sequence visits
  have logs : sequence.IsLog visits all := AllFinder.isLog_trace sequence visits
  exact ⟨logged.isOrderly, logs.isOrderly, FirstFinder.trace_snoc sequence visits,
    AllFinder.trace_snoc sequence visits, stands.passed, AllFinder.passed_run sequence visits,
    logged.tells.turn_le, logs.tells.turn_le⟩

end MethodPatch
