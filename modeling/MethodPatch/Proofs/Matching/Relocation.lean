import MethodPatch.Proofs.Expression.Relocation
import MethodPatch.Proofs.Matching.Compile
import MethodPatch.Proofs.Matching.Translation

set_option autoImplicit false

namespace MethodPatch

namespace Anchor

/-- The anchor at its renumbered offset, on the same line. -/
def renumbered (renumber : UInt32 → UInt32) (anchor : Anchor) : Anchor :=
  { anchor with offset := renumber anchor.offset }

/-- The anchor on the line that another line table gives it. -/
def relined (lines : List LineEntry) (anchor : Anchor) : Anchor :=
  { anchor with line := LineTable.lineAt lines anchor.offset }

end Anchor

namespace MatchSequence

theorem mirrors_renumbered (renumber : UInt32 → UInt32) (before : List Criteria)
    (last : Criteria) :
    (ofCriteria before last).Mirrors (ofCriteria before last) (·.renumbered renumber)
      (·.renumbered renumber) :=
  mirrors_of_criteria (matcherAt_ofCriteria before last)
    (fun criteria => criteria.accepts_renumbered renumber) fun _ => rfl

theorem mirrors_within (other : Method) (before : List Criteria) (last : Criteria) :
    (ofCriteria before last).Mirrors (ofCriteria before last) (Visit.within other)
      (·.relined other.lines) :=
  mirrors_of_criteria (matcherAt_ofCriteria before last)
    (fun criteria => criteria.accepts_within other) fun _ => rfl

end MatchSequence

namespace Method

/-- Bodies that differ in padding and lines only have the same anchors, on lines of their own. -/
theorem located_within (owner : String) (other method : Method) (before : List Criteria)
    (last : Criteria)
    (instructions : other.instructions.filter (!·.isPadding) =
      method.instructions.filter (!·.isPadding))
    (handlers : other.handlers = method.handlers) :
    other.locateFirst owner (.ofCriteria before last) =
        (method.locateFirst owner (.ofCriteria before last)).map (·.relined other.lines) ∧
      other.locateAll owner (.ofCriteria before last) =
        (method.locateAll owner (.ofCriteria before last)).map (·.relined other.lines) := by
  have walk : other.visits owner = (method.visits owner).map (Visit.within other) :=
    visits_within instructions handlers
  have mirrors := MatchSequence.mirrors_within other before last
  exact ⟨locateFirst_moved mirrors walk, locateAll_moved mirrors walk⟩

/-- Anchors of criteria follow the layout of a body. Renumbered in their order, whatever the
renumbering does to other offsets, the anchors are the same ones at the renumbered offsets, with
their lines; with padding put in or taken out anywhere they are the same ones; and with another line
table they are the same ones but for their lines. -/
theorem anchors_follow_layout (owner : String) (method : Method) (before : List Criteria)
    (last : Criteria) :
    let sequence := MatchSequence.ofCriteria before last
    (∀ renumber : UInt32 → UInt32, IsIncreasingOn renumber method.offsets →
      (method.renumbered renumber).locateFirst owner sequence =
          (method.locateFirst owner sequence).map (·.renumbered renumber) ∧
        (method.renumbered renumber).locateAll owner sequence =
          (method.locateAll owner sequence).map (·.renumbered renumber)) ∧
      (∀ padded : List Instruction,
        padded.filter (!·.isPadding) = method.instructions.filter (!·.isPadding) →
        { method with instructions := padded }.locateFirst owner sequence =
            method.locateFirst owner sequence ∧
          { method with instructions := padded }.locateAll owner sequence =
            method.locateAll owner sequence) ∧
      ∀ lines : List LineEntry,
        { method with lines := lines }.locateFirst owner sequence =
            (method.locateFirst owner sequence).map (·.relined lines) ∧
          { method with lines := lines }.locateAll owner sequence =
            (method.locateAll owner sequence).map (·.relined lines) := by
  refine ⟨fun renumber increasing => ?_, fun padded alike => ?_, fun lines => ?_⟩
  · have walk := visits_renumbered owner increasing
    have mirrors := MatchSequence.mirrors_renumbered renumber before last
    exact ⟨locateFirst_moved mirrors walk, locateAll_moved mirrors walk⟩
  · -- Both bodies are seen within the method itself, whose lines its own anchors have already.
    obtain ⟨first, all⟩ :=
      located_within owner { method with instructions := padded } method before last alike rfl
    obtain ⟨sameFirst, sameAll⟩ := located_within owner method method before last rfl rfl
    exact ⟨first.trans sameFirst.symm, all.trans sameAll.symm⟩
  · exact located_within owner { method with lines := lines } method before last rfl rfl

/-- A body whose lines stand in no order and share a start, renumbered by a function that increases
on its offsets only, then padded, then with no lines at all. -/
theorem anchors_follow_layout_of_build :
    let created : Instruction := .encoding 0 (.newObject "app/Box")
    let completed : Instruction :=
      .encoding 4 (.invoke ⟨"app.Box", "<init>", "()V", .special, 4⟩)
    let tick : Instruction := .encoding 9 (.invoke ⟨"app/Hud", "tick", "()V", .virtual, 9⟩)
    let method : Method :=
      ⟨"build", "()V", .packagePrivate, [], [created, completed, tick],
        [⟨4, 12⟩, ⟨0, 10⟩, ⟨4, 13⟩], [⟨0, 9, 9, none⟩]⟩
    let padded : List Instruction :=
      [.encoding 7 (.other 0), created, .encoding 3 (.loadText "box"), completed, tick]
    let before := [Criteria.ofKind .objectConstruction]
    let last := Criteria.methodCall "tick"
    let sequence := MatchSequence.ofCriteria before last
    let renumber : UInt32 → UInt32 := fun offset => if offset = 5 then 0 else offset * 3 + 2
    IsIncreasingOn renumber method.offsets ∧
      padded.filter (!·.isPadding) = method.instructions.filter (!·.isPadding) ∧
      (method.renumbered renumber).locateAll "app/Hud" sequence = [⟨29, some 13, .methodCall⟩] ∧
      { method with instructions := padded }.locateFirst "app/Hud" sequence =
        some ⟨9, some 13, .methodCall⟩ ∧
      { method with lines := [] }.locateAll "app/Hud" sequence = [⟨9, none, .methodCall⟩] := by
  intro created completed tick method padded before last sequence renumber
  have increasing : IsIncreasingOn renumber method.offsets := by decide +kernel
  have alike : padded.filter (!·.isPadding) = method.instructions.filter (!·.isPadding) := by
    decide +kernel
  have first : method.locateFirst "app/Hud" sequence = some ⟨9, some 13, .methodCall⟩ := by
    decide +kernel
  have all : method.locateAll "app/Hud" sequence = [⟨9, some 13, .methodCall⟩] := by
    decide +kernel
  obtain ⟨moved, kept, relined⟩ := method.anchors_follow_layout "app/Hud" before last
  refine ⟨increasing, alike, ?_, (kept padded alike).1.trans first, ?_⟩
  · exact (moved renumber increasing).2.trans (all ▸ rfl)
  · exact (relined []).2.trans (all ▸ rfl)

end Method

end MethodPatch
