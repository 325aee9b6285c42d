import MethodPatch.Override.Candidate
import MethodPatch.Proofs.Text

set_option autoImplicit false

namespace MethodPatch

namespace MethodKey

theorem atMost_iff (first second : MethodKey) :
    first.atMost second = true ↔
      Text.Before first.owner second.owner ∨ first.owner = second.owner ∧
        (Text.Before first.name second.name ∨ first.name = second.name ∧
          Text.atMost first.descriptor second.descriptor = true) := by
  unfold atMost Text.Before
  by_cases owners : first.owner = second.owner
  · by_cases names : first.name = second.name <;> simp [owners, names]
  · simp [owners]

theorem atMost_total (first second : MethodKey) :
    first.atMost second = true ∨ second.atMost first = true := by
  rw [atMost_iff, atMost_iff]
  rcases Text.before_or_eq_or_before first.owner second.owner with less | owners | more
  · exact Or.inl (Or.inl less)
  · rcases Text.before_or_eq_or_before first.name second.name with less | names | more
    · exact Or.inl (Or.inr ⟨owners, Or.inl less⟩)
    · rcases Text.atMost_total first.descriptor second.descriptor with less | more
      · exact Or.inl (Or.inr ⟨owners, Or.inr ⟨names, less⟩⟩)
      · exact Or.inr (Or.inr ⟨owners.symm, Or.inr ⟨names.symm, more⟩⟩)
    · exact Or.inr (Or.inr ⟨owners.symm, Or.inl more⟩)
  · exact Or.inr (Or.inl more)

theorem atMost_trans {first second third : MethodKey} (lower : first.atMost second = true)
    (upper : second.atMost third = true) : first.atMost third = true := by
  rw [atMost_iff] at lower upper ⊢
  rcases lower with lowerOwner | ⟨owners, lower⟩
  · rcases upper with upperOwner | ⟨others, _⟩
    · exact Or.inl (lowerOwner.trans upperOwner)
    · exact Or.inl (others ▸ lowerOwner)
  · rcases upper with upperOwner | ⟨others, upper⟩
    · exact Or.inl (owners ▸ upperOwner)
    · refine Or.inr ⟨owners.trans others, ?_⟩
      rcases lower with lowerName | ⟨names, lower⟩
      · rcases upper with upperName | ⟨otherNames, _⟩
        · exact Or.inl (lowerName.trans upperName)
        · exact Or.inl (otherNames ▸ lowerName)
      · rcases upper with upperName | ⟨otherNames, upper⟩
        · exact Or.inl (names ▸ upperName)
        · exact Or.inr ⟨names.trans otherNames, Text.atMost_trans lower upper⟩

theorem atMost_antisymm {first second : MethodKey} (lower : first.atMost second = true)
    (upper : second.atMost first = true) : first = second := by
  rw [atMost_iff] at lower upper
  obtain ⟨firstOwner, firstName, firstDescriptor⟩ := first
  obtain ⟨secondOwner, secondName, secondDescriptor⟩ := second
  rcases lower with lowerOwner | ⟨owners, lower⟩
  · rcases upper with upperOwner | ⟨others, _⟩
    · exact (lowerOwner.asymm upperOwner).elim
    · exact absurd others.symm lowerOwner.2
  · rcases upper with upperOwner | ⟨_, upper⟩
    · exact absurd owners.symm upperOwner.2
    · rcases lower with lowerName | ⟨names, lower⟩
      · rcases upper with upperName | ⟨otherNames, _⟩
        · exact (lowerName.asymm upperName).elim
        · exact absurd otherNames.symm lowerName.2
      · rcases upper with upperName | ⟨_, upper⟩
        · exact absurd names.symm upperName.2
        · rw [MethodKey.mk.injEq]
          exact ⟨owners, names, Text.atMost_antisymm lower upper⟩

end MethodKey

end MethodPatch
