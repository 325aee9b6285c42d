import MethodPatch.Proofs.Bytecode.Selection

set_option autoImplicit false

namespace MethodPatch

/-- The renumbering keeps these offsets apart and in their order. What it does elsewhere is no
matter. -/
def IsIncreasingOn (renumber : UInt32 → UInt32) (offsets : List UInt32) : Prop :=
  ∀ first ∈ offsets, ∀ second ∈ offsets, first < second → renumber first < renumber second

namespace IsIncreasingOn

/-- Only the offsets at hand have to be compared. -/
instance (renumber : UInt32 → UInt32) (offsets : List UInt32) :
    Decidable (IsIncreasingOn renumber offsets) :=
  @List.decidableBAll _
    (fun first => ∀ second ∈ offsets, first < second → renumber first < renumber second)
    (fun first => @List.decidableBAll _
      (fun second => first < second → renumber first < renumber second)
      (fun _ => inferInstance) offsets)
    offsets

variable {renumber : UInt32 → UInt32} {offsets : List UInt32}

theorem mono (increasing : IsIncreasingOn renumber offsets) {others : List UInt32}
    (among : ∀ offset ∈ others, offset ∈ offsets) : IsIncreasingOn renumber others :=
  fun first firstIn second secondIn =>
    increasing first (among first firstIn) second (among second secondIn)

theorem le_iff (increasing : IsIncreasingOn renumber offsets) {first second : UInt32}
    (firstIn : first ∈ offsets) (secondIn : second ∈ offsets) :
    renumber first ≤ renumber second ↔ first ≤ second := by
  have upward := increasing first firstIn second secondIn
  have downward := increasing second secondIn first firstIn
  simp only [UInt32.lt_iff_toNat_lt, UInt32.le_iff_toNat_le] at upward downward ⊢
  by_cases same : first.toNat = second.toNat
  · simp only [UInt32.toNat_inj.mp same, Nat.le_refl]
  · omega

theorem lt_iff (increasing : IsIncreasingOn renumber offsets) {first second : UInt32}
    (firstIn : first ∈ offsets) (secondIn : second ∈ offsets) :
    renumber first < renumber second ↔ first < second := by
  rw [← UInt32.not_le, ← UInt32.not_le, increasing.le_iff secondIn firstIn]

end IsIncreasingOn

def LineEntry.renumbered (renumber : UInt32 → UInt32) (entry : LineEntry) : LineEntry :=
  { entry with start := renumber entry.start }

namespace LineTable

variable {renumber : UInt32 → UInt32} {table : List LineEntry}

theorem latest_renumbered (increasing : IsIncreasingOn renumber (table.map (·.start))) :
    latest (table.map (·.renumbered renumber)) =
      (latest table).map (·.renumbered renumber) := by
  refine pickFrom_map table none fun best among entry member => ?_
  exact increasing.le_iff (List.mem_map_of_mem among) (List.mem_map_of_mem member)

theorem earliest_renumbered (increasing : IsIncreasingOn renumber (table.map (·.start))) :
    earliest (table.map (·.renumbered renumber)) =
      (earliest table).map (·.renumbered renumber) := by
  refine pickFrom_map table none fun best among entry member => ?_
  exact increasing.lt_iff (List.mem_map_of_mem member) (List.mem_map_of_mem among)

/-- The line of a renumbered offset in the renumbered table is that of the offset. -/
theorem lineAt_renumbered {offset : UInt32}
    (increasing : IsIncreasingOn renumber (offset :: table.map (·.start))) :
    lineAt (table.map (·.renumbered renumber)) (renumber offset) = lineAt table offset := by
  have starts : IsIncreasingOn renumber (table.map (·.start)) :=
    increasing.mono fun _ member => List.mem_cons_of_mem offset member
  have covering : (table.map (·.renumbered renumber)).filter (·.start ≤ renumber offset) =
      (table.filter (·.start ≤ offset)).map (·.renumbered renumber) := by
    rw [List.filter_map]
    congr 1
    apply List.filter_congr
    intro entry member
    have startIn : entry.start ∈ offset :: table.map (·.start) :=
      List.mem_cons_of_mem offset (List.mem_map_of_mem member)
    exact decide_eq_decide.mpr (increasing.le_iff startIn List.mem_cons_self)
  have covered : IsIncreasingOn renumber ((table.filter (·.start ≤ offset)).map (·.start)) :=
    starts.mono fun _ member => (List.filter_sublist.map _).subset member
  rw [lineAt, covering, latest_renumbered covered, earliest_renumbered starts, lineAt]
  cases latest (table.filter (·.start ≤ offset)) with
  | some entry => rfl
  | none =>
      rw [Option.map_none, Option.map_map]
      rfl

end LineTable

end MethodPatch
