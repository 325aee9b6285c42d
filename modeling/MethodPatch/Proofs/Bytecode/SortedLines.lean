import MethodPatch.Proofs.Bytecode.Selection
import Mathlib.Data.List.Nodup

set_option autoImplicit false

namespace MethodPatch.LineTable

/-- The table put in order of its starts. Entries of one start keep their order. -/
def byStart (table : List LineEntry) : List LineEntry :=
  table.mergeSort fun first second => decide (first.start ≤ second.start)

/-- The line of the last entry that starts at the offset or before; where none does, the line of the
first entry. -/
def lineInOrder (sorted : List LineEntry) (offset : UInt32) : Option UInt32 :=
  ((sorted.filter (·.start ≤ offset)).getLast?.or sorted.head?).map (·.line)

/-- One table has the entries of another in order of their starts, and those of one start in the
order in which the other has them. -/
structure IsStableSort (sorted table : List LineEntry) : Prop where
  perm : sorted.Perm table
  ordered : sorted.Pairwise fun first second => first.start ≤ second.start
  stable : ∀ start, sorted.filter (·.start == start) = table.filter (·.start == start)

namespace IsStableSort

variable {sorted table : List LineEntry}

theorem filter (sort : IsStableSort sorted table) (keeps : LineEntry → Bool) :
    IsStableSort (sorted.filter keeps) (table.filter keeps) where
  perm := sort.perm.filter keeps
  ordered := sort.ordered.filter keeps
  stable start := by
    rw [List.filter_comm, sort.stable, List.filter_comm]

/-- Any other order will do for entries of distinct starts. -/
theorem of_perm (sort : IsStableSort sorted table) {other : List LineEntry}
    (reordered : other.Perm table) (distinct : (table.map (·.start)).Nodup) :
    IsStableSort sorted other where
  perm := sort.perm.trans reordered.symm
  ordered := sort.ordered
  stable start := by
    have alike : ∀ first ∈ table.filter (·.start == start),
        ∀ second ∈ other.filter (·.start == start), first = second := by
      intro first firstKept second secondKept
      obtain ⟨firstIn, firstStart⟩ := List.mem_filter.mp firstKept
      obtain ⟨secondIn, secondStart⟩ := List.mem_filter.mp secondKept
      exact List.inj_on_of_nodup_map distinct firstIn (reordered.subset secondIn)
        ((beq_iff_eq.mp firstStart).trans (beq_iff_eq.mp secondStart).symm)
    -- Rearranged lists whose items are all alike are equal, in whatever order they are taken.
    have anyhow (entries : List LineEntry) : entries.Pairwise fun _ _ => True :=
      List.pairwise_of_forall fun _ _ => trivial
    rw [sort.stable]
    exact List.Perm.eq_of_pairwise
      (fun first second firstIn secondIn _ _ => alike first firstIn second secondIn)
      (anyhow _) (anyhow _) (reordered.symm.filter _)

/-- In a sorted table, no entry starts later than the last one. -/
theorem start_le_of_concat {front : List LineEntry} {last : LineEntry}
    (sort : IsStableSort (front ++ [last]) table) :
    ∀ entry ∈ table, entry.start ≤ last.start := by
  intro entry member
  obtain ⟨-, -, before⟩ := List.pairwise_append.mp sort.ordered
  rcases List.mem_append.mp (sort.perm.mem_iff.mpr member) with earlier | here
  · exact before entry earlier last (List.mem_singleton_self last)
  · rw [List.mem_singleton.mp here]
    exact UInt32.le_refl _

/-- In a sorted table, no entry starts earlier than the first one. -/
theorem le_start_of_cons {first : LineEntry} {rest : List LineEntry}
    (sort : IsStableSort (first :: rest) table) :
    ∀ entry ∈ table, first.start ≤ entry.start := by
  intro entry member
  rcases List.mem_cons.mp (sort.perm.mem_iff.mpr member) with rfl | later
  · exact UInt32.le_refl _
  · exact (List.pairwise_cons.mp sort.ordered).1 entry later

/-- The latest entry of a table comes last in order of starts. -/
theorem latest_eq (sort : IsStableSort sorted table) : latest table = sorted.getLast? := by
  cases picked : latest table with
  | none =>
      rw [eq_nil_of_pickFrom picked] at sort
      rw [sort.perm.eq_nil, List.getLast?_nil]
  | some best =>
      obtain ⟨upper, final⟩ := last_of_latest picked
      have member : best ∈ table := (List.mem_filter.mp (List.mem_of_getLast? final)).1
      rcases List.eq_nil_or_concat sorted with rfl | ⟨front, last, rfl⟩
      · exact absurd (sort.perm.mem_iff.mpr member) List.not_mem_nil
      · rw [List.concat_eq_append] at sort ⊢
        have lastIn : last ∈ table := sort.perm.subset (List.mem_append_right front (by simp))
        have same : last.start = best.start :=
          UInt32.le_antisymm (upper last lastIn) (sort.start_le_of_concat best member)
        rw [← same, ← sort.stable, List.filter_append, List.filter_cons, beq_self_eq_true,
          if_pos rfl, List.filter_nil, List.getLast?_concat] at final
        rw [List.getLast?_concat, final]

/-- The earliest entry of a table comes first in order of starts. -/
theorem earliest_eq (sort : IsStableSort sorted table) : earliest table = sorted.head? := by
  cases picked : earliest table with
  | none =>
      rw [eq_nil_of_pickFrom picked] at sort
      rw [sort.perm.eq_nil, List.head?_nil]
  | some best =>
      obtain ⟨lower, initial⟩ := first_of_earliest picked
      have member : best ∈ table := (List.mem_filter.mp (List.mem_of_head? initial)).1
      cases sorted with
      | nil => exact absurd (sort.perm.mem_iff.mpr member) List.not_mem_nil
      | cons first rest =>
          have firstIn : first ∈ table := sort.perm.subset List.mem_cons_self
          have same : first.start = best.start :=
            UInt32.le_antisymm (sort.le_start_of_cons best member) (lower first firstIn)
          rw [← same, ← sort.stable, List.filter_cons, beq_self_eq_true, if_pos rfl,
            List.head?_cons] at initial
          rw [List.head?_cons, initial]

/-- A lookup in a table is a search in the sorted one. -/
theorem lineAt_eq (sort : IsStableSort sorted table) (offset : UInt32) :
    lineAt table offset = lineInOrder sorted offset := by
  rw [lineAt, (sort.filter fun entry => entry.start ≤ offset).latest_eq, sort.earliest_eq,
    lineInOrder]
  cases (sorted.filter (·.start ≤ offset)).getLast? <;> rfl

end IsStableSort

theorem isStableSort_byStart (table : List LineEntry) : IsStableSort (byStart table) table := by
  have trans : ∀ first second third : LineEntry, decide (first.start ≤ second.start) = true →
      decide (second.start ≤ third.start) = true → decide (first.start ≤ third.start) = true := by
    intro first second third lower upper
    exact decide_eq_true (UInt32.le_trans (of_decide_eq_true lower) (of_decide_eq_true upper))
  have total : ∀ first second : LineEntry,
      (decide (first.start ≤ second.start) || decide (second.start ≤ first.start)) = true := by
    intro first second
    simpa only [Bool.or_eq_true, decide_eq_true_eq] using UInt32.le_total first.start second.start
  have perm : (byStart table).Perm table := List.mergeSort_perm table _
  refine ⟨perm, (List.pairwise_mergeSort trans total table).imp of_decide_eq_true, fun start => ?_⟩
  -- Entries of one start stand in order as they are, so sorting keeps them as a sublist.
  have alike : (table.filter (·.start == start)).Pairwise fun first second =>
      decide (first.start ≤ second.start) = true := by
    rw [List.pairwise_filter]
    refine List.pairwise_of_forall fun first second firstHere secondHere => decide_eq_true ?_
    rw [beq_iff_eq.mp firstHere, beq_iff_eq.mp secondHere]
    exact UInt32.le_refl _
  have kept := (List.sublist_mergeSort trans total alike List.filter_sublist).filter
    (·.start == start)
  rw [List.filter_filter] at kept
  simp only [Bool.and_self] at kept
  exact (kept.eq_of_length (perm.filter _).length_eq.symm).symm

/-- A line goes on for as long as no entry starts. -/
theorem lineAt_of_no_start {table : List LineEntry} {offset later : UInt32}
    (ahead : offset ≤ later)
    (noStart : ∀ entry ∈ table, ¬(offset < entry.start ∧ entry.start ≤ later)) :
    lineAt table later = lineAt table offset := by
  have covering : table.filter (·.start ≤ later) = table.filter (·.start ≤ offset) := by
    apply List.filter_congr
    intro entry member
    rw [decide_eq_decide]
    constructor
    · intro covered
      exact UInt32.not_lt.mp fun after => noStart entry member ⟨after, covered⟩
    · intro covered
      exact UInt32.le_trans covered ahead
  rw [lineAt, lineAt, covering]

/-- A lookup in a table, whatever its order, is a search in the stable sort of the table by its
starts. So the order of the entries is no matter if no two of them share a start, and two offsets
have one line if no entry starts after the lower one and up to the upper one. -/
theorem lineAt_eq_lineInOrder (table : List LineEntry) (offset : UInt32) :
    IsStableSort (byStart table) table ∧
      lineAt table offset = lineInOrder (byStart table) offset ∧
      (∀ other : List LineEntry, other.Perm table → (table.map (·.start)).Nodup →
        lineAt other offset = lineAt table offset) ∧
      ∀ later, offset ≤ later →
        (∀ entry ∈ table, ¬(offset < entry.start ∧ entry.start ≤ later)) →
        lineAt table later = lineAt table offset := by
  have sort := isStableSort_byStart table
  refine ⟨sort, sort.lineAt_eq offset, fun other reordered distinct => ?_, fun later ahead noStart =>
    lineAt_of_no_start ahead noStart⟩
  calc lineAt other offset
      = lineInOrder (byStart table) offset := (sort.of_perm reordered distinct).lineAt_eq offset
    _ = lineAt table offset := (sort.lineAt_eq offset).symm

/-- A table in no order, and the same entries in another. -/
theorem lineAt_eq_lineInOrder_unsorted :
    let table : List LineEntry := [⟨4, 12⟩, ⟨9, 15⟩, ⟨2, 10⟩]
    let other : List LineEntry := [⟨9, 15⟩, ⟨2, 10⟩, ⟨4, 12⟩]
    (other.Perm table ∧ (table.map (·.start)).Nodup) ∧
      (∀ entry ∈ table, ¬(5 < entry.start ∧ entry.start ≤ 8)) ∧
      lineInOrder (byStart table) 5 = some 12 ∧ lineAt other 5 = some 12 ∧
      lineAt table 8 = some 12 := by
  intro table other
  have reordered : other.Perm table := by decide
  have distinct : (table.map (·.start)).Nodup := by decide
  have noStart : ∀ entry ∈ table, ¬(5 < entry.start ∧ entry.start ≤ 8) := by decide
  have line : lineAt table 5 = some 12 := by decide
  obtain ⟨-, search, anyOrder, goesOn⟩ := lineAt_eq_lineInOrder table 5
  exact ⟨⟨reordered, distinct⟩, noStart, search ▸ line,
    (anyOrder other reordered distinct).trans line, (goesOn 8 (by decide) noStart).trans line⟩

-- Of entries that share a start, the last covers what follows and the first what comes before.
example : lineAt [⟨4, 12⟩, ⟨4, 15⟩] 5 = some 15 ∧ lineAt [⟨4, 12⟩, ⟨4, 15⟩] 0 = some 12 := by decide

end MethodPatch.LineTable
