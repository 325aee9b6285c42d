import MethodPatch.Proofs.Override.Application
import MethodPatch.Proofs.Override.Registration

set_option autoImplicit false

namespace MethodPatch

@[simp] theorem Instruction.offset_madeVirtual (instruction : Instruction) :
    instruction.madeVirtual.offset = instruction.offset := by
  obtain ⟨offset, opcode, operation⟩ := instruction
  cases operation <;> rfl

namespace Instruction

/-- Where the instruction stands, and whether it is a call. -/
def placement (instruction : Instruction) : UInt32 × Bool :=
  (instruction.offset, instruction.call?.isSome)

theorem placement_madeVirtual (instruction : Instruction) :
    instruction.madeVirtual.placement = instruction.placement := by
  rw [placement, placement, offset_madeVirtual, call?_madeVirtual, Option.isSome_map]

theorem haveSeparateCalls_iff (instructions : List Instruction) :
    HaveSeparateCalls instructions ↔
      (instructions.map placement).Pairwise fun first second =>
        first.2 = true → second.2 = true → first.1 ≠ second.1 := by
  rw [List.pairwise_map]
  rfl

end Instruction

/-- The body, with a number of calls that were changed before counted in. -/
def PatchedBody.following (body : PatchedBody) (earlier : Nat) : PatchedBody :=
  { body with changed := earlier + body.changed }

namespace Session

/-- More rules select more. -/
theorem selects_mono {session later : Session} (fewer : session.rules ⊆ later.rules)
    {caller : String} {bytecode : List UInt8} {instruction : Instruction}
    (selected : session.selects caller bytecode instruction = true) :
    later.selects caller bytecode instruction = true := by
  rw [selects_iff, appliesTo_iff] at selected ⊢
  obtain ⟨⟨call, calls, rule, member, ruled⟩, holds⟩ := selected
  exact ⟨⟨call, calls, rule, fewer member, ruled⟩, holds⟩

/-- The calls of the body stand elsewhere than at the offset. -/
def CallsAvoid (bytecode : List UInt8) (instructions : List Instruction) (offset : UInt32) : Prop :=
  bytecode ≠ [] → ∀ other ∈ instructions, other.call?.isSome = true → other.offset ≠ offset

theorem CallsAvoid.set {bytecode : List UInt8} {instructions : List Instruction} {offset : UInt32}
    (avoid : CallsAvoid bytecode instructions offset) (place : Nat) (byte : UInt8) :
    CallsAvoid (bytecode.set place byte) instructions offset :=
  fun known => avoid fun unknown => known (by rw [unknown, List.set_nil])

theorem CallsAvoid.tail {bytecode : List UInt8} {instruction : Instruction}
    {rest : List Instruction} {offset : UInt32}
    (avoid : CallsAvoid bytecode (instruction :: rest) offset) : CallsAvoid bytecode rest offset :=
  fun known other member => avoid known other (List.mem_cons_of_mem instruction member)

/-- An application keeps the bytes where none of the calls stands. -/
theorem holdsInvokeSpecial_patchBody (session : Session) (caller : String) (bytecode : List UInt8)
    (instructions : List Instruction) (offset : UInt32)
    (avoid : CallsAvoid bytecode instructions offset) :
    holdsInvokeSpecial (session.patchBody caller bytecode instructions).bytecode offset =
      holdsInvokeSpecial bytecode offset := by
  induction instructions generalizing bytecode with
  | nil => rfl
  | cons first rest ih =>
      by_cases selected : session.selects caller bytecode first = true
      · obtain ⟨call, calls, _⟩ := special_of_selects selected
        have written : holdsInvokeSpecial
            (bytecode.set first.offset.toNat Opcode.invokeVirtual) offset =
              holdsInvokeSpecial bytecode offset := by
          rw [Bool.eq_iff_iff, holdsInvokeSpecial_set_iff]
          exact and_iff_left fun known =>
            avoid known first List.mem_cons_self (by rw [calls, Option.isSome_some])
        rw [patchBody_of_selects selected, ih _ (avoid.tail.set _ _), written]
      · rw [patchBody_of_not_selects selected, ih bytecode avoid.tail]

/-- What is selected among bytes that an application has left is what was selected before it, for a
call that stands apart from those it met. -/
theorem selects_patchBody (session later : Session) (caller : String) (bytecode : List UInt8)
    (instructions : List Instruction) (instruction : Instruction)
    (avoid : instruction.call?.isSome = true →
      CallsAvoid bytecode instructions instruction.offset) :
    later.selects caller (session.patchBody caller bytecode instructions).bytecode instruction =
      later.selects caller bytecode instruction := by
  rw [selects, selects]
  by_cases applies : later.appliesTo caller instruction = true
  · obtain ⟨call, calls, _⟩ := (later.appliesTo_iff caller instruction).mp applies
    rw [holdsInvokeSpecial_patchBody _ _ _ _ _ (avoid (by rw [calls, Option.isSome_some]))]
  · rw [Bool.not_eq_true] at applies
    rw [applies, Bool.false_and, Bool.false_and]

/-- A byte written where none of the calls stands is no matter to an application. -/
theorem patchBody_set (session : Session) (caller : String) (bytecode : List UInt8)
    (instructions : List Instruction) (place : UInt32)
    (avoid : CallsAvoid bytecode instructions place) :
    session.patchBody caller (bytecode.set place.toNat Opcode.invokeVirtual) instructions =
      { session.patchBody caller bytecode instructions with
        bytecode := (session.patchBody caller bytecode instructions).bytecode.set place.toNat
          Opcode.invokeVirtual } := by
  induction instructions generalizing bytecode with
  | nil => rfl
  | cons first rest ih =>
      by_cases selected : session.selects caller bytecode first = true
      · obtain ⟨call, calls, _⟩ := special_of_selects selected
        have apart : bytecode ≠ [] → place ≠ first.offset := fun known =>
          (avoid known first List.mem_cons_self (by rw [calls, Option.isSome_some])).symm
        have still := (session.selects_set_iff caller bytecode place first).mpr ⟨selected, apart⟩
        have swapped : (bytecode.set place.toNat Opcode.invokeVirtual).set first.offset.toNat
            Opcode.invokeVirtual = (bytecode.set first.offset.toNat Opcode.invokeVirtual).set
              place.toNat Opcode.invokeVirtual := by
          by_cases same : place.toNat = first.offset.toNat
          · rw [same]
          · exact List.set_comm _ _ same
        rw [patchBody_of_selects still, patchBody_of_selects selected, swapped,
          ih _ (avoid.tail.set _ _)]
      · have still : ¬ session.selects caller
            (bytecode.set place.toNat Opcode.invokeVirtual) first = true := fun selectedAfter =>
          selected ((session.selects_set_iff caller bytecode place first).mp selectedAfter).1
        rw [patchBody_of_not_selects still, patchBody_of_not_selects selected,
          ih bytecode avoid.tail]

/-- Rules that come later finish what some of them have begun, where calls stand apart. -/
theorem patchBody_patchBody {session later : Session} (fewer : session.rules ⊆ later.rules)
    (caller : String) (bytecode : List UInt8) (instructions : List Instruction)
    (separate : bytecode ≠ [] → Instruction.HaveSeparateCalls instructions) :
    let early := session.patchBody caller bytecode instructions
    (later.patchBody caller early.bytecode early.instructions).following early.changed =
      later.patchBody caller bytecode instructions := by
  induction instructions generalizing bytecode with
  | nil => rfl
  | cons first rest ih =>
      have others : bytecode ≠ [] → Instruction.HaveSeparateCalls rest :=
        fun known => (List.pairwise_cons.mp (separate known)).2
      have written (place : Nat) (byte : UInt8) :
          bytecode.set place byte ≠ [] → Instruction.HaveSeparateCalls rest :=
        fun known => others fun unknown => known (by rw [unknown, List.set_nil])
      have avoid (calls : first.call?.isSome = true) : CallsAvoid bytecode rest first.offset :=
        fun known other member otherCalls =>
          ((List.pairwise_cons.mp (separate known)).1 other member calls otherCalls).symm
      by_cases selected : session.selects caller bytecode first = true
      · have rest := ih (bytecode.set first.offset.toNat Opcode.invokeVirtual) (written _ _)
        rw [patchBody_of_selects selected, patchBody_of_selects (selects_mono fewer selected)]
        dsimp only at rest ⊢
        rw [patchBody_of_not_selects (later.not_selects_madeVirtual _ _ _), ← rest]
        simp only [PatchedBody.following]
        rw [Nat.add_right_comm]
      · have same := session.selects_patchBody later caller bytecode rest first avoid
        rw [patchBody_of_not_selects selected]
        dsimp only
        by_cases selectedLater : later.selects caller bytecode first = true
        · -- The byte written for the later rules is no matter to the earlier ones.
          obtain ⟨call, calls, _⟩ := special_of_selects selectedLater
          have frame := session.patchBody_set caller bytecode rest first.offset
            (avoid (by rw [calls, Option.isSome_some]))
          have rest := ih (bytecode.set first.offset.toNat Opcode.invokeVirtual) (written _ _)
          rw [patchBody_of_selects selectedLater, patchBody_of_selects (same.trans selectedLater)]
          rw [frame] at rest
          dsimp only at rest ⊢
          rw [← rest]
          rfl
        · have passed := same.trans (Bool.not_eq_true _ ▸ selectedLater)
          rw [patchBody_of_not_selects selectedLater,
            patchBody_of_not_selects (Bool.not_eq_true _ ▸ passed), ← ih bytecode others]
          rfl

theorem hasSeparateCalls_applyToMethod {method : Method} (separate : method.HasSeparateCalls)
    (session : Session) (caller : String) :
    (session.applyToMethod caller method).1.HasSeparateCalls := by
  intro known
  have knownBefore : method.bytecode ≠ [] := by
    intro unknown
    rw [applyToMethod, unknown] at known
    exact known (session.bytecode_patchBody_nil caller method.instructions)
  have placed := map_patchBody _ Instruction.placement_madeVirtual session caller method.bytecode
    method.instructions
  rw [Instruction.haveSeparateCalls_iff, applyToMethod, placed, ← Instruction.haveSeparateCalls_iff]
  exact separate knownBefore

theorem hasSeparateCalls_apply {owner : Class}
    (separate : ∀ method ∈ owner.methods, method.HasSeparateCalls) (session : Session) :
    ∀ method ∈ (session.apply owner).1.methods, method.HasSeparateCalls := by
  rw [apply_methods]
  intro changed member
  obtain ⟨method, declared, rfl⟩ := List.mem_map.mp member
  exact hasSeparateCalls_applyToMethod (separate method declared) session owner.name

theorem hasSeparateCalls_makeOverridable {session later : Session} {owner opened : Class}
    {name descriptor : String} (separate : ∀ method ∈ owner.methods, method.HasSeparateCalls)
    (made : session.makeOverridable owner name descriptor = .ok (later, opened)) :
    ∀ method ∈ opened.methods, method.HasSeparateCalls := by
  obtain ⟨_, _, _, _, _, rfl⟩ := (session.makeOverridable_eq_ok_iff _ _ _ _ _).mp made
  intro changed member
  rcases FirstMatch.mem_modify _ _ member with declared | ⟨method, declared, rfl⟩
  · exact separate changed declared
  · exact separate method declared

/-- Rules that come later finish in a class what some of them have begun. -/
theorem apply_apply {session later : Session} (fewer : session.rules ⊆ later.rules)
    (owner : Class) (separate : ∀ method ∈ owner.methods, method.HasSeparateCalls) :
    (later.apply (session.apply owner).1).1 = (later.apply owner).1 ∧
      (session.apply owner).2 + (later.apply (session.apply owner).1).2 =
        (later.apply owner).2 := by
  have each : ∀ method ∈ owner.methods,
      (later.applyToMethod owner.name (session.applyToMethod owner.name method).1).1 =
          (later.applyToMethod owner.name method).1 ∧
        (session.applyToMethod owner.name method).2 +
          (later.applyToMethod owner.name (session.applyToMethod owner.name method).1).2 =
            (later.applyToMethod owner.name method).2 := by
    intro method member
    have body := patchBody_patchBody fewer owner.name method.bytecode method.instructions
      (separate method member)
    simp only [applyToMethod, ← body, PatchedBody.following, and_self]
  simp only [apply_eq, List.map_map, ← List.sum_map_add]
  constructor
  · congr 1
    exact List.map_congr_left fun method member => (each method member).1
  · exact congrArg List.sum (List.map_congr_left fun method member => (each method member).2)

theorem method?_apply (session : Session) (owner : Class) (name descriptor : String) :
    (session.apply owner).1.method? name descriptor =
      (owner.method? name descriptor).map fun method =>
        (session.applyToMethod owner.name method).1 := by
  rw [Class.method?, apply_methods, List.find?_map]
  rfl

/-- Widening a method and applying rules to its class do not meet. -/
theorem apply_modifyMethod (session : Session) (owner : Class) (name descriptor : String) :
    session.apply (owner.modifyMethod name descriptor Method.widened) =
      ((session.apply owner).1.modifyMethod name descriptor Method.widened,
        (session.apply owner).2) := by
  have methods := FirstMatch.modify_map
    (fun method => (session.applyToMethod owner.name method).1) (·.isNamed name descriptor)
    Method.widened Method.widened owner.methods fun _ => rfl
  have changed := FirstMatch.map_modify
    (fun method => (session.applyToMethod owner.name method).2) (·.isNamed name descriptor)
    Method.widened owner.methods fun _ _ => rfl
  simp only [apply_eq, Class.modifyMethod, methods, changed]
  rfl

/-- A registration finds the same method in a class that rules were applied to, and widens it
there. -/
theorem makeOverridable_apply (session other : Session) (owner : Class) (name descriptor : String) :
    session.makeOverridable (other.apply owner).1 name descriptor =
      (session.makeOverridable owner name descriptor).map fun result =>
        (result.1, (other.apply result.2).1) := by
  rw [makeOverridable_eq, makeOverridable_eq, method?_apply]
  cases owner.method? name descriptor with
  | none => rfl
  | some method =>
      have candidate : Candidate.of (other.apply owner).1
          (other.applyToMethod owner.name method).1 = Candidate.of owner method := rfl
      have named : (other.apply owner).1.name = owner.name := rfl
      simp only [Option.map_some, candidate, named]
      split
      · rfl
      · cases (Candidate.of owner method).check with
        | error reason => rfl
        | ok _ =>
            have widened := congrArg Prod.fst (other.apply_modifyMethod owner name descriptor)
            simp only [Except.map, Except.ok.injEq, Prod.mk.injEq, true_and]
            exact widened.symm

end Session

end MethodPatch
