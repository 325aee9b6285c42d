import MethodPatch.Matching.Sequence

set_option autoImplicit false

namespace MethodPatch

namespace MatchSequence

/-- The sequence of these criteria. -/
def ofCriteria (before : List Criteria) (last : Criteria) : MatchSequence :=
  ⟨before.map Criteria.matcher, last.matcher⟩

/-- It asks nothing but criteria. -/
theorem matcherAt_ofCriteria (before : List Criteria) (last : Criteria) (passed : Nat) :
    ∃ criteria : Criteria, (ofCriteria before last).matcherAt passed = criteria.matcher := by
  rw [matcherAt, ofCriteria, List.getElem?_map]
  cases before[passed]? with
  | none => exact ⟨last, rfl⟩
  | some criteria => exact ⟨criteria, rfl⟩

end MatchSequence

namespace SequenceSpec

theorem foldl_andThen (criteria : List Criteria) (draft : MatchSequence.Draft) :
    criteria.foldl (fun draft criteria => draft.andThen criteria.matcher) draft =
      { draft with before := draft.before ++ criteria.map Criteria.matcher } := by
  induction criteria generalizing draft with
  | nil => rw [List.foldl_nil, List.map_nil, List.append_nil]
  | cons first rest ih =>
      rw [List.foldl_cons, ih]
      simp only [MatchSequence.Draft.andThen, List.map_cons, List.append_assoc,
        List.singleton_append]

theorem draft_eq (spec : SequenceSpec) :
    spec.draft = ⟨spec.before.map Criteria.matcher, spec.last.map Criteria.matcher⟩ := by
  simp only [draft, foldl_andThen, MatchSequence.Draft.empty, List.nil_append]
  cases spec.last <;> rfl

theorem compile_eq (spec : SequenceSpec) :
    spec.compile =
      match spec.last with
      | some last => .ok (.ofCriteria spec.before last)
      | none => .error .missingFinalMatcher := by
  rw [compile, draft_eq, MatchSequence.Draft.build]
  cases spec.last <;> rfl

theorem compile_eq_ok_iff (spec : SequenceSpec) (sequence : MatchSequence) :
    spec.compile = .ok sequence ↔
      ∃ last, spec.last = some last ∧ sequence = .ofCriteria spec.before last := by
  rw [compile_eq]
  cases spec.last with
  | none => simp
  | some last =>
      simp only [Except.ok.injEq, Option.some.injEq, exists_eq_left']
      exact eq_comm

theorem matcherAt_of_compile {spec : SequenceSpec} {sequence : MatchSequence}
    (compiled : spec.compile = .ok sequence) (passed : Nat) :
    ∃ criteria : Criteria, sequence.matcherAt passed = criteria.matcher := by
  obtain ⟨last, _, rfl⟩ := (spec.compile_eq_ok_iff sequence).mp compiled
  exact MatchSequence.matcherAt_ofCriteria spec.before last passed

end SequenceSpec

end MethodPatch
