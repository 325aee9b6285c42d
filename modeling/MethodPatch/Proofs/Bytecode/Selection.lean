import MethodPatch.Bytecode.LineTable
import Mathlib.Data.List.Induction

set_option autoImplicit false

namespace MethodPatch.LineTable

/-- The entry held after these were offered. Of a new entry and the one held, the new one stays if
it replaces the other. -/
def pickFrom (replaces : LineEntry → LineEntry → Prop) [DecidableRel replaces]
    (held : Option LineEntry) (entries : List LineEntry) : Option LineEntry :=
  entries.foldl (fun held entry =>
    match held with
    | none => some entry
    | some best => if replaces best entry then some entry else some best) held

theorem latest_eq_pickFrom (table : List LineEntry) :
    latest table = pickFrom (fun best entry => best.start ≤ entry.start) none table := rfl

theorem earliest_eq_pickFrom (table : List LineEntry) :
    earliest table = pickFrom (fun best entry => entry.start < best.start) none table := rfl

section Picking

variable {replaces : LineEntry → LineEntry → Prop} [DecidableRel replaces]

theorem pickFrom_concat (held : Option LineEntry) (entries : List LineEntry) (entry : LineEntry) :
    pickFrom replaces held (entries ++ [entry]) =
      match pickFrom replaces held entries with
      | none => some entry
      | some best => if replaces best entry then some entry else some best := by
  unfold pickFrom
  rw [List.foldl_append, List.foldl_cons, List.foldl_nil]

theorem eq_nil_of_pickFrom {entries : List LineEntry}
    (nothing : pickFrom replaces none entries = none) : entries = [] := by
  rcases List.eq_nil_or_concat entries with none | ⟨front, entry, rfl⟩
  · exact none
  · rw [List.concat_eq_append, pickFrom_concat] at nothing
    split at nothing
    · cases nothing
    · split at nothing <;> cases nothing

/-- The entry picked has replaced all before it, and none after it replaces it, provided that
replacing is transitive and that whatever replaces an entry also replaces those that do not. -/
theorem split_of_pickFrom {entries : List LineEntry} {best : LineEntry}
    (picked : pickFrom replaces none entries = some best)
    (trans : ∀ first second third, replaces first second → replaces second third →
      replaces first third)
    (passed : ∀ first second third, ¬replaces first second → replaces first third →
      replaces second third) :
    ∃ front back, entries = front ++ best :: back ∧ (∀ entry ∈ front, replaces entry best) ∧
      ∀ entry ∈ back, ¬replaces best entry := by
  -- Entries are offered from the front, so the last one is the one to be added in the induction.
  induction entries using List.reverseRecOn generalizing best with
  | nil => cases picked
  | append_singleton earlier entry ih =>
      rw [pickFrom_concat] at picked
      cases before : pickFrom replaces none earlier with
      | none =>
          rw [before] at picked
          cases picked
          rw [eq_nil_of_pickFrom before]
          exact ⟨[], [], rfl, by simp, by simp⟩
      | some held =>
          obtain ⟨front, back, rfl, behind, ahead⟩ := ih before
          rw [before] at picked
          by_cases replaced : replaces held entry
          · simp only [replaced, if_true, Option.some.injEq] at picked
            subst picked
            refine ⟨front ++ held :: back, [], rfl, fun other member => ?_, by simp⟩
            rcases List.mem_append.mp member with earlier | here
            · exact trans other held entry (behind other earlier) replaced
            · rcases List.mem_cons.mp here with rfl | later
              · exact replaced
              · exact passed held other entry (ahead other later) replaced
          · simp only [replaced, if_false, Option.some.injEq] at picked
            subst picked
            refine ⟨front, back ++ [entry], by simp, behind, fun other member => ?_⟩
            rcases List.mem_append.mp member with later | last
            · exact ahead other later
            · rw [List.mem_singleton.mp last]
              exact replaced

/-- Relabelled entries are picked as the entries themselves, provided they replace one another
alike. -/
theorem pickFrom_map {relabel : LineEntry → LineEntry} (entries : List LineEntry)
    (held : Option LineEntry)
    (alike : ∀ best ∈ held.toList ++ entries, ∀ entry ∈ entries,
      (replaces (relabel best) (relabel entry) ↔ replaces best entry)) :
    pickFrom replaces (held.map relabel) (entries.map relabel) =
      (pickFrom replaces held entries).map relabel := by
  unfold pickFrom
  induction entries generalizing held with
  | nil => rfl
  | cons entry rest ih =>
      have later : ∀ next : LineEntry, next ∈ held.toList ++ [entry] →
          ∀ best ∈ (some next).toList ++ rest, ∀ other ∈ rest,
            (replaces (relabel best) (relabel other) ↔ replaces best other) := by
        intro next here best among other member
        refine alike best ?_ other (List.mem_cons_of_mem entry member)
        simp only [Option.toList_some, List.mem_append, List.mem_cons, List.not_mem_nil,
          or_false] at among here ⊢
        rcases among with rfl | among
        · exact here.elim Or.inl fun same => Or.inr (Or.inl same)
        · exact Or.inr (Or.inr among)
      cases held with
      | none => exact ih (some entry) (later entry (by simp))
      | some best =>
          have first := alike best (by simp) entry List.mem_cons_self
          by_cases replaced : replaces best entry
          · simp only [List.map_cons, List.foldl_cons, Option.map_some, first, replaced, if_true]
            exact ih (some entry) (later entry (by simp))
          · simp only [List.map_cons, List.foldl_cons, Option.map_some, first, replaced, if_false]
            exact ih (some best) (later best (by simp))

end Picking

/-- No entry starts later than the latest one, which is the last of those that start when it
does. -/
theorem last_of_latest {table : List LineEntry} {best : LineEntry}
    (picked : latest table = some best) :
    (∀ entry ∈ table, entry.start ≤ best.start) ∧
      (table.filter (·.start == best.start)).getLast? = some best := by
  rw [latest_eq_pickFrom] at picked
  obtain ⟨front, back, rfl, behind, ahead⟩ := split_of_pickFrom picked
    (fun _ _ _ lower upper => UInt32.le_trans lower upper)
    (fun _ _ _ before upper =>
      UInt32.le_of_lt (UInt32.lt_of_lt_of_le (UInt32.not_le.mp before) upper))
  constructor
  · intro entry member
    rcases List.mem_append.mp member with earlier | here
    · exact behind entry earlier
    · rcases List.mem_cons.mp here with rfl | later
      · exact UInt32.le_refl _
      · exact UInt32.le_of_lt (UInt32.not_le.mp (ahead entry later))
  · have others : back.filter (·.start == best.start) = [] := by
      rw [List.filter_eq_nil_iff]
      intro entry member same
      exact ahead entry member (beq_iff_eq.mp same ▸ UInt32.le_refl _)
    rw [List.filter_append, List.filter_cons, beq_self_eq_true, if_pos rfl, others,
      List.getLast?_concat]

/-- No entry starts earlier than the earliest one, which is the first of those that start when it
does. -/
theorem first_of_earliest {table : List LineEntry} {best : LineEntry}
    (picked : earliest table = some best) :
    (∀ entry ∈ table, best.start ≤ entry.start) ∧
      (table.filter (·.start == best.start)).head? = some best := by
  rw [earliest_eq_pickFrom] at picked
  obtain ⟨front, back, rfl, behind, ahead⟩ := split_of_pickFrom picked
    (fun _ _ _ upper lower => UInt32.lt_trans lower upper)
    (fun _ _ _ notBefore lower => UInt32.lt_of_lt_of_le lower (UInt32.not_lt.mp notBefore))
  constructor
  · intro entry member
    rcases List.mem_append.mp member with earlier | here
    · exact UInt32.le_of_lt (behind entry earlier)
    · rcases List.mem_cons.mp here with rfl | later
      · exact UInt32.le_refl _
      · exact UInt32.not_lt.mp (ahead entry later)
  · have others : front.filter (·.start == best.start) = [] := by
      rw [List.filter_eq_nil_iff]
      intro entry member same
      exact UInt32.lt_irrefl _ (beq_iff_eq.mp same ▸ behind entry member)
    rw [List.filter_append, others, List.nil_append, List.filter_cons, beq_self_eq_true,
      if_pos rfl, List.head?_cons]

end MethodPatch.LineTable
