import MethodPatch.Proofs.Expression.Constructions

set_option autoImplicit false

namespace MethodPatch.Method

/-- The pairs are brackets around one another, and no call is left without an allocation that was
its own to complete. -/
structure IsWellNested (method : Method) (pairs : Set (Nat × Nat)) : Prop where
  ordered : ∀ pair ∈ pairs, pair.1 < pair.2
  fits : ∀ pair ∈ pairs, method.fits pair.1 pair.2 = true
  /-- No instruction is in two pairs. -/
  apart : ∀ first ∈ pairs, ∀ second ∈ pairs, first ≠ second →
    first.1 ≠ second.1 ∧ first.1 ≠ second.2 ∧ first.2 ≠ second.2
  uncrossed : ∀ first ∈ pairs, ∀ second ∈ pairs,
    ¬ (first.1 < second.1 ∧ second.1 < first.2 ∧ first.2 < second.2)
  enclosed : ∀ pair ∈ pairs, ∀ between, pair.1 < between → between < pair.2 →
    (method.allocation? between).isSome = true →
      ∃ call, (between, call) ∈ pairs ∧ between < call ∧ call < pair.2
  /-- A call is in no pair exactly if nothing is pending before it, or the last pending allocation
  is of another type. -/
  alone : ∀ call, (method.initialized? call).isSome = true →
    ((∀ allocated, (allocated, call) ∉ pairs) ↔ method.pending pairs call = ∅ ∨
      ∃ last, IsGreatest (method.pending pairs call) last ∧ method.fits last call = false)

/-- The allocations and the initializer calls of a body are properly nested by the pairs: each is in
one of them, with another of its type, and no two pairs cross. -/
structure IsNesting (method : Method) (pairs : Set (Nat × Nat)) : Prop where
  ordered : ∀ pair ∈ pairs, pair.1 < pair.2
  fits : ∀ pair ∈ pairs, method.fits pair.1 pair.2 = true
  uncrossed : ∀ first ∈ pairs, ∀ second ∈ pairs,
    ¬ (first.1 < second.1 ∧ second.1 < first.2 ∧ first.2 < second.2)
  allocations : ∀ place, (method.allocation? place).isSome = true → ∃! call, (place, call) ∈ pairs
  calls : ∀ place, (method.initialized? place).isSome = true →
    ∃! allocated, (allocated, place) ∈ pairs

variable {method : Method} {pairs : Set (Nat × Nat)}

namespace PairsInnermost

theorem lt (innermost : method.PairsInnermost pairs) {allocated call : Nat}
    (paired : (allocated, call) ∈ pairs) : allocated < call :=
  ((innermost allocated call).mp paired).1.1.1

theorem fits (innermost : method.PairsInnermost pairs) {allocated call : Nat}
    (paired : (allocated, call) ∈ pairs) : method.fits allocated call = true :=
  ((innermost allocated call).mp paired).2

/-- A call completes one allocation. -/
theorem allocated_eq (innermost : method.PairsInnermost pairs) {first second call : Nat}
    (one : (first, call) ∈ pairs) (other : (second, call) ∈ pairs) : first = second :=
  ((innermost first call).mp one).1.unique ((innermost second call).mp other).1

/-- An allocation is completed by one call: it is not pending any more at a later one. -/
theorem call_eq (innermost : method.PairsInnermost pairs) {allocated first second : Nat}
    (one : (allocated, first) ∈ pairs) (other : (allocated, second) ∈ pairs) : first = second := by
  have waitsFirst := ((innermost allocated first).mp one).1.1.2.2
  have waitsSecond := ((innermost allocated second).mp other).1.1.2.2
  rcases Nat.lt_trichotomy first second with less | same | greater
  · exact absurd one (waitsSecond first less)
  · exact same
  · exact absurd other (waitsFirst second greater)

/-- No instruction is an allocation in one pair and a call in another. -/
theorem allocated_ne_call (innermost : method.PairsInnermost pairs) {first second : Nat × Nat}
    (one : first ∈ pairs) (other : second ∈ pairs) : first.1 ≠ second.2 := by
  intro same
  have allocates := isSome_allocation?_of_fits (innermost.fits one)
  have called := isSome_initialized?_of_fits (innermost.fits other)
  rw [← same, initialized?_of_isSome_allocation? allocates] at called
  cases called

/-- What is allocated within a pair is no longer pending at its end. -/
theorem enclosed (innermost : method.PairsInnermost pairs) {allocated call between : Nat}
    (paired : (allocated, call) ∈ pairs) (after : allocated < between) (before : between < call)
    (allocates : (method.allocation? between).isSome = true) :
    ∃ inner, (between, inner) ∈ pairs ∧ between < inner ∧ inner < call := by
  have last := ((innermost allocated call).mp paired).1.2
  by_contra none
  have waiting : between ∈ method.pending pairs call := by
    refine ⟨before, allocates, fun inner less completes => none ?_⟩
    exact ⟨inner, completes, innermost.lt completes, less⟩
  exact Nat.not_lt.mpr (last waiting) after

theorem uncrossed (innermost : method.PairsInnermost pairs) {first second : Nat × Nat}
    (one : first ∈ pairs) (other : second ∈ pairs) :
    ¬ (first.1 < second.1 ∧ second.1 < first.2 ∧ first.2 < second.2) := by
  rintro ⟨after, before, crosses⟩
  have allocates := isSome_allocation?_of_fits (innermost.fits other)
  obtain ⟨inner, completes, _, less⟩ := innermost.enclosed one after before allocates
  have same : inner = second.2 := innermost.call_eq completes other
  omega

/-- A call is left alone exactly if nothing that fits is the last pending allocation. -/
theorem alone (innermost : method.PairsInnermost pairs) (call : Nat) :
    (∀ allocated, (allocated, call) ∉ pairs) ↔ method.pending pairs call = ∅ ∨
      ∃ last, IsGreatest (method.pending pairs call) last ∧ method.fits last call = false := by
  constructor
  · intro unpaired
    rcases (method.pending pairs call).eq_empty_or_nonempty with none | nonempty
    · exact Or.inl none
    · obtain ⟨last, greatest⟩ := exists_isGreatest_of_pending subset_rfl nonempty
      have unfit : ¬ method.fits last call = true := fun fits =>
        unpaired last ((innermost last call).mpr ⟨greatest, fits⟩)
      exact Or.inr ⟨last, greatest, Bool.eq_false_of_not_eq_true unfit⟩
  · rintro (none | ⟨last, greatest, unfit⟩) allocated paired
    · have waiting := ((innermost allocated call).mp paired).1.1
      rw [none] at waiting
      exact waiting
    · have same : allocated = last := ((innermost allocated call).mp paired).1.unique greatest
      rw [← same, innermost.fits paired] at unfit
      cases unfit

theorem isWellNested (innermost : method.PairsInnermost pairs) : method.IsWellNested pairs := by
  refine ⟨fun _ => innermost.lt, fun _ => innermost.fits, ?_,
    fun _ one _ => innermost.uncrossed one, fun _ paired _ => innermost.enclosed paired,
    fun call _ => innermost.alone call⟩
  intro first one second other different
  refine ⟨fun same => different ?_, innermost.allocated_ne_call one other, fun same => different ?_⟩
  · have completes : (first.1, second.2) ∈ pairs := same ▸ other
    exact Prod.ext same (innermost.call_eq one completes)
  · have completes : (second.1, first.2) ∈ pairs := same ▸ other
    exact Prod.ext (innermost.allocated_eq one completes) same

end PairsInnermost

/-- A proper nesting pairs innermost: an allocation that is pending at the end of a pair and stands
within it would have to cross it. -/
theorem IsNesting.pairsInnermost (nesting : method.IsNesting pairs) :
    method.PairsInnermost pairs := by
  have innermost {allocated call : Nat} (paired : (allocated, call) ∈ pairs) :
      IsGreatest (method.pending pairs call) allocated := by
    have fits := nesting.fits _ paired
    have called := nesting.calls call (isSome_initialized?_of_fits fits)
    have allocates := isSome_allocation?_of_fits fits
    refine ⟨⟨nesting.ordered _ paired, allocates, fun earlier less completes => ?_⟩, ?_⟩
    · have same := (nesting.allocations allocated allocates).unique completes paired
      exact Nat.ne_of_lt less same
    · -- What waits after `allocated` has its call after `call`, so the pairs would cross.
      intro other waiting
      obtain ⟨inner, completes, _⟩ := nesting.allocations other waiting.2.1
      by_contra within
      have within : allocated < other := Nat.lt_of_not_le within
      have late : call ≤ inner :=
        Nat.le_of_not_lt fun less => waiting.2.2 inner less completes
      have apart : inner ≠ call := by
        rintro rfl
        exact Nat.ne_of_lt within (called.unique paired completes)
      refine nesting.uncrossed _ paired _ completes ⟨within, waiting.1, ?_⟩
      exact Nat.lt_of_le_of_ne late apart.symm
  intro allocated call
  refine ⟨fun paired => ⟨innermost paired, nesting.fits _ paired⟩, ?_⟩
  rintro ⟨greatest, fits⟩
  obtain ⟨other, paired, _⟩ := nesting.calls call (isSome_initialized?_of_fits fits)
  exact (innermost paired).unique greatest ▸ paired

/-- The constructions of a walk are well nested. There are pairs of an allocation and a later call
of the initializer of its type such that the walk, told place by place, reports exactly the calls in
the pairs as constructions, with the offsets of their allocations; no two of them share an
instruction or cross, what is allocated within one is completed within it, and a call is in none
exactly if nothing is pending before it or the last pending allocation is of another type. Where the
body is properly nested in any way, these are its pairs. -/
theorem constructions_nest (owner : String) (method : Method) :
    method.visits owner =
        (List.range method.instructions.length).filterMap (method.visitAt? owner) ++
          method.handlers.map (handlerVisit owner method) ∧
      ∃ pairs, method.Constructs owner pairs ∧ method.IsWellNested pairs ∧
        ∀ nesting, method.IsNesting nesting → nesting = pairs := by
  refine ⟨visits_eq_filterMap owner method, method.pairs, constructs_pairs owner method,
    method.pairsInnermost.isWellNested, ?_⟩
  intro nesting nested
  exact nested.pairsInnermost.unique method.pairsInnermost

/-- A box within a box, both of one type, the inner one completed under another spelling of it. -/
theorem constructions_nest_boxes :
    let method : Method :=
      ⟨"build", "()V", .packagePrivate, [],
        [.encoding 0 (.newObject "app/Box"), .encoding 4 (.newObject "app/Box"),
          .encoding 8 (.invoke ⟨"app.Box", "<init>", "()V", .special, 8⟩),
          .encoding 11 (.invoke ⟨"app/Box", "<init>", "()V", .special, 11⟩)], [], []⟩
    let nesting : Set (Nat × Nat) := {(0, 3), (1, 2)}
    method.IsNesting nesting ∧ method.Constructs "app/Hud" nesting := by
  intro method nesting
  have nested : method.IsNesting nesting := by
    refine ⟨?_, ?_, ?_, ?_, ?_⟩
    · rintro _ (rfl | rfl) <;> decide
    · rintro _ (rfl | rfl) <;> decide +kernel
    · rintro _ (rfl | rfl) _ (rfl | rfl) <;> decide
    · rintro (_ | _ | _ | _ | place) allocates
      · exact ⟨3, by simp [nesting], by simp [nesting]⟩
      · exact ⟨2, by simp [nesting], by simp [nesting]⟩
      all_goals cases allocates
    · rintro (_ | _ | _ | _ | place) called
      · cases called
      · cases called
      · exact ⟨1, by simp [nesting], by simp [nesting]⟩
      · exact ⟨0, by simp [nesting], by simp [nesting]⟩
      · cases called
  obtain ⟨_, pairs, constructs, _, recovers⟩ := constructions_nest "app/Hud" method
  exact ⟨nested, recovers nesting nested ▸ constructs⟩

end MethodPatch.Method
