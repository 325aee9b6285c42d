import MethodPatch.Proofs.Expression.Constructions

set_option autoImplicit false

namespace MethodPatch.Method

/-- The pending allocations of the type whose initializer is called at `call`. -/
def pendingOfType (method : Method) (call : Nat) : Set Nat :=
  {waiting ∈ method.pending method.pairs call | method.fits waiting call = true}

/-- The walk over a method of the class `owner` pairs by type at `call`: it reports the construction
of the last pending allocation of the type, if there is one, and reports a call that constructs
nothing only where there is none. -/
structure PairsByTypeAt (method : Method) (owner : String) (call : Nat) : Prop where
  construction : ∀ last, IsGreatest (method.pendingOfType call) last →
    method.ReportsConstruction owner last call
  constructorCall : ∀ visit, method.visitAt? owner call = some visit →
    visit.kind = .constructorCall → method.pendingOfType call = ∅

/-- A walk pairs its calls with the allocations of its constructions. A call is paired by type
exactly if no pending allocation is of its type or the last pending allocation of all is: exactly if
no allocation of another type is pending after the last one of its type. -/
theorem pairsByTypeAt_iff (owner : String) (method : Method) :
    method.Constructs owner method.pairs ∧
      ∀ call, method.PairsByTypeAt owner call ↔ ((method.pendingOfType call).Nonempty →
        ∃ last, IsGreatest (method.pending method.pairs call) last ∧
          method.fits last call = true) := by
  have constructs := method.constructs_pairs owner
  have innermost := method.pairsInnermost
  refine ⟨constructs, fun call => ⟨?_, ?_⟩⟩
  · -- A reported construction is always that of the last pending allocation of all.
    intro byType nonempty
    obtain ⟨last, greatest⟩ := exists_isGreatest_of_pending (fun _ member => member.1) nonempty
    obtain ⟨_, _, _, _, _, _, visited⟩ := byType.construction last greatest
    obtain ⟨allocated, paired⟩ := constructs.paired call _ visited rfl
    exact ⟨allocated, (innermost allocated call).mp paired⟩
  · intro fitting
    refine ⟨fun allocated greatest => ?_, fun visit visited kind => ?_⟩
    · obtain ⟨last, isLast, fits⟩ := fitting ⟨allocated, greatest.1⟩
      have same : allocated = last :=
        Nat.le_antisymm (isLast.2 greatest.1.1) (greatest.2 ⟨isLast.1, fits⟩)
      have paired : (allocated, call) ∈ method.pairs :=
        (innermost allocated call).mpr (same ▸ ⟨isLast, fits⟩)
      exact constructs.construction _ paired
    · by_contra waiting
      obtain ⟨last, isLast⟩ := fitting (Set.nonempty_iff_ne_empty.mpr waiting)
      have paired : (last, call) ∈ method.pairs := (innermost last call).mpr isLast
      obtain ⟨_, _, _, _, _, _, constructed⟩ := constructs.construction _ paired
      cases Option.some.inj (visited.symm.trans constructed)
      cases kind

/-- Two objects are allocated one after the other, and the first is initialized first. Its
initializer call is reported as a call that constructs nothing. -/
theorem not_pairsByTypeAt_interleaved :
    let method : Method :=
      ⟨"build", "()V", ⟨false, false, false, true, false⟩, [],
        [.encoding 0 (.newObject "app/Hud"), .encoding 3 (.other 76),
          .encoding 4 (.newObject "app/Menu"), .encoding 7 (.other 77),
          .encoding 8 (.other 43),
          .encoding 9 (.invoke ⟨"app/Hud", "<init>", "()V", .special, 9⟩),
          .encoding 12 (.other 44),
          .encoding 13 (.invoke ⟨"app/Menu", "<init>", "()V", .special, 13⟩),
          .encoding 16 (.other 177)], [], []⟩
    ¬ method.PairsByTypeAt "app/Main" 5 := by
  intro method byType
  have waiting : 0 ∈ method.pendingOfType 5 := by
    refine ⟨(method.mem_openPlaces_iff 5 0).mp ?_, ?_⟩ <;> decide +kernel
  have reported : (method.visitAt? "app/Main" 5).map (·.kind) = some .constructorCall := by
    decide +kernel
  obtain ⟨visit, visited, kind⟩ := Option.map_eq_some_iff.mp reported
  rw [byType.constructorCall visit visited kind] at waiting
  exact waiting

end MethodPatch.Method
