import MethodPatch.Proofs.Matching.Step
import Mathlib.Order.Fin.Basic
import Mathlib.Data.Fin.Tuple.Basic

set_option autoImplicit false

namespace MethodPatch

namespace MatchSequence

/-- The matcher before the last one that stands at `step` accepts the visit at `place`. -/
def acceptsAt (sequence : MatchSequence) (visits : List Visit) (step place : Nat) : Bool :=
  (sequence.before[step]?).any fun matcher => (visits[place]?).any matcher.accepts

/-- The first `count` matchers accept visits before `stop`, each later than the one before. -/
def Passes (sequence : MatchSequence) (visits : List Visit) (count stop : Nat) : Prop :=
  ∃ place : Fin count → Nat, StrictMono place ∧
    ∀ step, place step < stop ∧ sequence.acceptsAt visits step (place step) = true

/-- Some full match ends at the visit at `place`. -/
def EndsAt (sequence : MatchSequence) (visits : List Visit) (place : Nat) : Prop :=
  sequence.Passes visits sequence.before.length place ∧
    (visits[place]?).any sequence.last.accepts = true

theorem passes_none (sequence : MatchSequence) (visits : List Visit) (stop : Nat) :
    sequence.Passes visits 0 stop :=
  ⟨Fin.elim0, fun step => step.elim0, fun step => step.elim0⟩

theorem not_passes_start (sequence : MatchSequence) (visits : List Visit) (count : Nat) :
    ¬ sequence.Passes visits (count + 1) 0 := by
  rintro ⟨place, _, accepted⟩
  exact absurd (accepted 0).1 (Nat.not_lt_zero _)

theorem Passes.mono {sequence : MatchSequence} {visits : List Visit} {count stop later : Nat}
    (passes : sequence.Passes visits count stop) (le : stop ≤ later) :
    sequence.Passes visits count later := by
  obtain ⟨place, increasing, accepted⟩ := passes
  exact ⟨place, increasing,
    fun step => ⟨Nat.lt_of_lt_of_le (accepted step).1 le, (accepted step).2⟩⟩

/-- A choice of visits goes on with the visit at the next place. -/
theorem Passes.snoc {sequence : MatchSequence} {visits : List Visit} {count stop : Nat}
    (passes : sequence.Passes visits count stop)
    (here : sequence.acceptsAt visits count stop = true) :
    sequence.Passes visits (count + 1) (stop + 1) := by
  obtain ⟨place, increasing, accepted⟩ := passes
  refine ⟨Fin.snoc (α := fun _ => Nat) place stop, ?_, ?_⟩
  · intro first second less
    induction second using Fin.lastCases with
    | last =>
        have other : first = (first.castPred (Fin.ne_of_lt less)).castSucc := by simp
        rw [other, Fin.snoc_castSucc, Fin.snoc_last]
        exact (accepted _).1
    | cast second =>
        have below : first ≠ Fin.last count :=
          Fin.ne_of_lt (less.trans (Fin.castSucc_lt_last second))
        have other : first = (first.castPred below).castSucc := by simp
        rw [other] at less ⊢
        rw [Fin.snoc_castSucc, Fin.snoc_castSucc]
        exact increasing (Fin.castSucc_lt_castSucc_iff.mp less)
  · intro step
    induction step using Fin.lastCases with
    | last => simpa using here
    | cast step =>
        have found := accepted step
        simp only [Fin.snoc_castSucc, Fin.val_castSucc]
        exact ⟨Nat.lt_succ_of_lt found.1, found.2⟩

/-- A choice of visits makes do without the visit before its end, or takes it for its last. -/
theorem Passes.last_or {sequence : MatchSequence} {visits : List Visit} {count stop : Nat}
    (passes : sequence.Passes visits (count + 1) (stop + 1)) :
    sequence.Passes visits (count + 1) stop ∨
      sequence.Passes visits count stop ∧ sequence.acceptsAt visits count stop = true := by
  obtain ⟨place, increasing, accepted⟩ := passes
  have final := accepted (Fin.last count)
  by_cases early : place (Fin.last count) < stop
  · left
    refine ⟨place, increasing, fun step => ⟨?_, (accepted step).2⟩⟩
    exact Nat.lt_of_le_of_lt (increasing.monotone (Fin.le_last step)) early
  · right
    have here : place (Fin.last count) = stop := by omega
    refine ⟨⟨fun step => place step.castSucc, ?_, fun step => ⟨?_, ?_⟩⟩, ?_⟩
    · intro first second less
      exact increasing (Fin.castSucc_lt_castSucc_iff.mpr less)
    · have less : place step.castSucc < place (Fin.last count) :=
        increasing (Fin.castSucc_lt_last step)
      exact here ▸ less
    · exact (accepted step.castSucc).2
    · simpa only [here, Fin.val_last] using final.2

/-- One more matcher passes before the next place if it did already, or if the others have passed
and it accepts the visit at this place. -/
theorem passes_succ (sequence : MatchSequence) (visits : List Visit) (count stop : Nat) :
    sequence.Passes visits (count + 1) (stop + 1) ↔
      sequence.Passes visits (count + 1) stop ∨
        sequence.Passes visits count stop ∧ sequence.acceptsAt visits count stop = true := by
  constructor
  · exact Passes.last_or
  · rintro (already | ⟨others, here⟩)
    · exact already.mono (Nat.le_succ stop)
    · exact others.snoc here

/-- The search for places tries every visit for every matcher. -/
instance decidablePasses (sequence : MatchSequence) (visits : List Visit) :
    ∀ count stop, Decidable (sequence.Passes visits count stop)
  | 0, stop => isTrue (passes_none sequence visits stop)
  | count + 1, 0 => isFalse (not_passes_start sequence visits count)
  | count + 1, stop + 1 =>
      have := decidablePasses sequence visits (count + 1) stop
      have := decidablePasses sequence visits count stop
      decidable_of_iff _ (passes_succ sequence visits count stop).symm

instance (sequence : MatchSequence) (visits : List Visit) (place : Nat) :
    Decidable (sequence.EndsAt visits place) :=
  inferInstanceAs (Decidable (_ ∧ _))

/-- The visits before `stop` that a full match ends at, in their order. -/
def endsBefore (sequence : MatchSequence) (visits : List Visit) (stop : Nat) : List Visit :=
  ((visits.take stop).zipIdx.filter fun shown => sequence.EndsAt visits shown.2).map (·.1)

end MatchSequence

namespace AllFinder

/-- What a finder knows after the visits before `stop`. -/
structure Tracks (sequence : MatchSequence) (visits : List Visit) (stop : Nat)
    (finder : AllFinder) : Prop where
  bounded : finder.passed ≤ sequence.before.length
  /-- The finder has passed as many matchers as any choice of visits passes. -/
  passes : ∀ count ≤ sequence.before.length,
    (count ≤ finder.passed ↔ sequence.Passes visits count stop)
  found : finder.found = (sequence.endsBefore visits stop).map Visit.anchor

theorem tracks_start (sequence : MatchSequence) (visits : List Visit) :
    Tracks sequence visits 0 start := by
  refine ⟨Nat.zero_le _, ?_, rfl⟩
  intro count _
  cases count with
  | zero => exact ⟨fun _ => sequence.passes_none visits 0, fun _ => Nat.le_refl 0⟩
  | succ count =>
      exact ⟨fun le => absurd le (Nat.not_succ_le_zero count),
        fun passes => absurd passes (sequence.not_passes_start visits count)⟩

/-- The step of the exchange: a further matcher passes at this visit exactly when all the others
have passed, however early, and it accepts. -/
theorem Tracks.passes_visit {sequence : MatchSequence} {visits : List Visit} {stop : Nat}
    {finder : AllFinder} (tracks : Tracks sequence visits stop finder) (count : Nat)
    (le : count ≤ sequence.before.length) :
    sequence.Passes visits count (stop + 1) ↔
      count ≤ finder.passed ∨
        count = finder.passed + 1 ∧ sequence.acceptsAt visits finder.passed stop = true := by
  cases count with
  | zero => exact ⟨fun _ => Or.inl (Nat.zero_le _), fun _ => sequence.passes_none visits _⟩
  | succ count =>
      rw [sequence.passes_succ, ← tracks.passes (count + 1) le,
        ← tracks.passes count (Nat.le_of_succ_le le)]
      constructor
      · rintro (already | ⟨others, here⟩)
        · exact Or.inl already
        · by_cases last : count = finder.passed
          · exact Or.inr ⟨by rw [last], last ▸ here⟩
          · exact Or.inl (by omega)
      · rintro (already | ⟨last, here⟩)
        · exact Or.inl already
        · have same : count = finder.passed := Nat.succ.inj last
          exact Or.inr ⟨Nat.le_of_eq same, same ▸ here⟩

theorem acceptsAt_of_lt (sequence : MatchSequence) (visits : List Visit) (passed stop : Nat)
    (shown : Visit) (here : visits[stop]? = some shown) (more : passed < sequence.before.length) :
    sequence.acceptsAt visits passed stop = (sequence.matcherAt passed).accepts shown := by
  simp only [MatchSequence.acceptsAt, MatchSequence.matcherAt, here,
    List.getElem?_eq_getElem more, Option.any_some, Option.getD_some]

theorem endsAt_iff (sequence : MatchSequence) (visits : List Visit) (stop : Nat) (shown : Visit)
    (here : visits[stop]? = some shown) :
    sequence.EndsAt visits stop ↔
      sequence.Passes visits sequence.before.length stop ∧
        sequence.last.accepts shown = true := by
  simp only [MatchSequence.EndsAt, here, Option.any_some]

theorem endsBefore_succ (sequence : MatchSequence) (visits : List Visit) (stop : Nat)
    (shown : Visit) (here : visits[stop]? = some shown) :
    sequence.endsBefore visits (stop + 1) =
      sequence.endsBefore visits stop ++
        if sequence.EndsAt visits stop then [shown] else [] := by
  have inside : stop < visits.length := (List.getElem?_eq_some_iff.mp here).1
  have length : (visits.take stop).length = stop := List.length_take_of_le (Nat.le_of_lt inside)
  simp only [MatchSequence.endsBefore, List.take_add_one, here, Option.toList_some,
    List.zipIdx_append, List.filter_append, List.map_append, length, Nat.zero_add,
    List.zipIdx_singleton]
  by_cases ends : sequence.EndsAt visits stop <;> simp [ends]

/-- A visit while matchers before the last one are still to pass. No full match can end there. -/
theorem Tracks.visit_of_more {sequence : MatchSequence} {visits : List Visit} {stop : Nat}
    {finder : AllFinder} (tracks : Tracks sequence visits stop finder) (shown : Visit)
    (here : visits[stop]? = some shown) (more : finder.passed < sequence.before.length) :
    Tracks sequence visits (stop + 1) (finder.visit sequence shown) := by
  have complete := tracks.passes _ (Nat.le_refl _)
  have unfinished : ¬ sequence.EndsAt visits stop := by
    rw [endsAt_iff sequence visits stop shown here, ← complete]
    omega
  have found := endsBefore_succ sequence visits stop shown here
  rw [if_neg unfinished, List.append_nil] at found
  have accepts := acceptsAt_of_lt sequence visits finder.passed stop shown here more
  rw [visit_eq]
  by_cases accepted : (sequence.matcherAt finder.passed).accepts shown = true
  · rw [if_pos accepted, if_pos more]
    refine ⟨more, ?_, by rw [found]; exact tracks.found⟩
    intro count le
    rw [tracks.passes_visit count le, accepts]
    simp only [accepted, and_true]
    omega
  · rw [if_neg accepted]
    refine ⟨tracks.bounded, ?_, by rw [found]; exact tracks.found⟩
    intro count le
    rw [tracks.passes_visit count le, accepts]
    exact ⟨Or.inl, fun passed => passed.resolve_right fun here => accepted here.2⟩

/-- A visit once all matchers before the last one have passed. -/
theorem Tracks.visit_of_all {sequence : MatchSequence} {visits : List Visit} {stop : Nat}
    {finder : AllFinder} (tracks : Tracks sequence visits stop finder) (shown : Visit)
    (here : visits[stop]? = some shown) (all : finder.passed = sequence.before.length) :
    Tracks sequence visits (stop + 1) (finder.visit sequence shown) := by
  have none : ¬ finder.passed < sequence.before.length := by omega
  have last : sequence.matcherAt finder.passed = sequence.last := by
    rw [MatchSequence.matcherAt, List.getElem?_eq_none (by omega), Option.getD_none]
  have kept : ∀ count ≤ sequence.before.length,
      (count ≤ finder.passed ↔ sequence.Passes visits count (stop + 1)) := by
    intro count le
    exact ⟨fun passed => ((tracks.passes count le).mp passed).mono (Nat.le_succ stop),
      fun _ => all ▸ le⟩
  have reached : sequence.Passes visits sequence.before.length stop :=
    (tracks.passes _ (Nat.le_refl _)).mp (Nat.le_of_eq all.symm)
  have ends := endsAt_iff sequence visits stop shown here
  have found := endsBefore_succ sequence visits stop shown here
  rw [visit_eq, last, if_neg none]
  by_cases accepted : sequence.last.accepts shown = true
  · rw [if_pos (ends.mpr ⟨reached, accepted⟩)] at found
    rw [if_pos accepted]
    refine ⟨tracks.bounded, kept, ?_⟩
    rw [found, List.map_append, ← tracks.found, List.map_singleton]
  · have unended : ¬ sequence.EndsAt visits stop := fun ended => accepted (ends.mp ended).2
    rw [if_neg unended, List.append_nil] at found
    rw [if_neg accepted]
    exact ⟨tracks.bounded, kept, by rw [found]; exact tracks.found⟩

theorem Tracks.visit {sequence : MatchSequence} {visits : List Visit} {stop : Nat}
    {finder : AllFinder} (tracks : Tracks sequence visits stop finder) (shown : Visit)
    (here : visits[stop]? = some shown) :
    Tracks sequence visits (stop + 1) (finder.visit sequence shown) := by
  rcases Nat.lt_or_eq_of_le tracks.bounded with more | all
  · exact tracks.visit_of_more shown here more
  · exact tracks.visit_of_all shown here all

/-- The invariant after any number of visits. -/
theorem tracks_run (sequence : MatchSequence) (visits : List Visit) :
    ∀ stop ≤ visits.length, Tracks sequence visits stop (start.run sequence (visits.take stop)) := by
  intro stop
  induction stop with
  | zero => exact fun _ => tracks_start sequence visits
  | succ stop ih =>
      intro inside
      have here : visits[stop]? = some visits[stop] := List.getElem?_eq_getElem inside
      have shown := (ih (Nat.le_of_succ_le inside)).visit visits[stop] here
      rw [List.take_add_one, here, run, List.foldl_append]
      exact shown

/-- A finder of all anchors, shown one walk after another, reports a visit exactly when some full
match ends there, whichever visits that match chose. -/
theorem locations_walks (sequence : MatchSequence) (walks : List (List Visit)) :
    (walks.foldl (run sequence) start).locations =
      .ok ((walks.flatten.zipIdx.filter fun shown => sequence.EndsAt walks.flatten shown.2).map
        fun shown => shown.1.anchor) := by
  have tracks := tracks_run sequence walks.flatten walks.flatten.length (Nat.le_refl _)
  have joined : walks.foldl (run sequence) start = start.run sequence walks.flatten :=
    List.foldl_flatten.symm
  rw [List.take_length] at tracks
  rw [joined, locations, tracks.found, MatchSequence.endsBefore, List.take_length, List.map_map]
  rfl

end AllFinder

end MethodPatch
