import MethodPatch.Text

set_option autoImplicit false

namespace MethodPatch

namespace Text

/-- One text comes before another and is not the same. -/
def Before (first second : String) : Prop := atMost first second = true ∧ first ≠ second

theorem atMost_iff {first second : String} :
    atMost first second = true ↔ bytes first ≤ bytes second :=
  decide_eq_true_iff

theorem atMost_total (first second : String) :
    atMost first second = true ∨ atMost second first = true :=
  (List.le_total (bytes first) (bytes second)).imp atMost_iff.mpr atMost_iff.mpr

theorem atMost_trans {first second third : String} (lower : atMost first second = true)
    (upper : atMost second third = true) : atMost first third = true :=
  atMost_iff.mpr (List.le_trans (atMost_iff.mp lower) (atMost_iff.mp upper))

theorem atMost_antisymm {first second : String} (lower : atMost first second = true)
    (upper : atMost second first = true) : first = second :=
  bytes_inj.mp (List.le_antisymm (atMost_iff.mp lower) (atMost_iff.mp upper))

theorem Before.trans {first second third : String} (lower : Before first second)
    (upper : Before second third) : Before first third := by
  refine ⟨atMost_trans lower.1 upper.1, ?_⟩
  rintro rfl
  exact lower.2 (atMost_antisymm lower.1 upper.1)

theorem Before.asymm {first second : String} (lower : Before first second)
    (upper : Before second first) : False :=
  (lower.trans upper).2 rfl

theorem before_or_eq_or_before (first second : String) :
    Before first second ∨ first = second ∨ Before second first := by
  by_cases same : first = second
  · exact Or.inr (Or.inl same)
  · rcases atMost_total first second with less | more
    · exact Or.inl ⟨less, same⟩
    · exact Or.inr (Or.inr ⟨more, Ne.symm same⟩)

end Text

end MethodPatch
