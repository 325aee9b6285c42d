import MethodPatch.Proofs.Override.Prediction
import Mathlib.Data.List.Nodup

set_option autoImplicit false

namespace MethodPatch

section Changes

variable {α : Type} [DecidableEq α]

/-- The items that became others, each with what it became. -/
def changedItems (before after : List α) : List (α × α) :=
  (before.zip after).filter fun pair => pair.1 ≠ pair.2

/-- The places at which two lists differ. -/
def changedPlaces (before after : List α) : List Nat :=
  (List.range before.length).filter fun place => before[place]? ≠ after[place]?

theorem changedItems_cons_self (first : α) (rest later : List α) :
    changedItems (first :: rest) (first :: later) = changedItems rest later := by
  simp [changedItems]

theorem changedItems_cons_of_ne {first changed : α} (different : first ≠ changed)
    (rest later : List α) :
    changedItems (first :: rest) (changed :: later) =
      (first, changed) :: changedItems rest later := by
  simp [changedItems, different]

/-- What stands where an item changed, before and after. -/
theorem getElem?_of_mem_changedItems {before after : List α} {pair : α × α}
    (member : pair ∈ changedItems before after) :
    ∃ place : Nat, before[place]? = some pair.1 ∧ after[place]? = some pair.2 ∧
      pair.1 ≠ pair.2 := by
  obtain ⟨zipped, different⟩ := List.mem_filter.mp member
  obtain ⟨place, standing⟩ := List.mem_iff_getElem?.mp zipped
  obtain ⟨first, second⟩ := List.getElem?_zip_eq_some.mp standing
  exact ⟨place, first, second, of_decide_eq_true different⟩

theorem mem_changedPlaces_iff (before after : List α) (place : Nat) :
    place ∈ changedPlaces before after ↔
      place < before.length ∧ before[place]? ≠ after[place]? := by
  simp [changedPlaces]

theorem nodup_changedPlaces (before after : List α) : (changedPlaces before after).Nodup :=
  List.nodup_range.filter _

end Changes

/-- At each of the offsets, all of them different, the opcode of a special call gave way to that of
a virtual one, and nothing happened elsewhere. -/
structure Overwrites (offsets : List Nat) (before after : List UInt8) : Prop where
  distinct : offsets.Nodup
  special : ∀ place ∈ offsets, before[place]? = some Opcode.invokeSpecial
  virtual : ∀ place ∈ offsets, after[place]? = some Opcode.invokeVirtual
  kept : ∀ place, place ∉ offsets → after[place]? = before[place]?

namespace Overwrites

theorem nil (bytecode : List UInt8) : Overwrites [] bytecode bytecode where
  distinct := List.nodup_nil
  special := fun _ member => nomatch member
  virtual := fun _ member => nomatch member
  kept := fun _ _ => rfl

/-- An opcode that is written first is special no more, so none of the later writes is at its
offset. -/
theorem cons {offset : Nat} {offsets : List Nat} {before after : List UInt8}
    (here : before[offset]? = some Opcode.invokeSpecial)
    (rest : Overwrites offsets (before.set offset Opcode.invokeVirtual) after) :
    Overwrites (offset :: offsets) before after := by
  have bound : offset < before.length := (List.getElem?_eq_some_iff.mp here).1
  have written : (before.set offset Opcode.invokeVirtual)[offset]? = some Opcode.invokeVirtual :=
    List.getElem?_set_self bound
  have fresh : offset ∉ offsets := by
    intro again
    have special := rest.special offset again
    rw [written] at special
    exact absurd (Option.some.inj special) (by decide)
  have elsewhere {place : Nat} (apart : place ≠ offset) :
      (before.set offset Opcode.invokeVirtual)[place]? = before[place]? :=
    List.getElem?_set_ne apart.symm
  refine ⟨List.nodup_cons.mpr ⟨fresh, rest.distinct⟩, ?_, ?_, ?_⟩
  · refine List.forall_mem_cons.mpr ⟨here, fun place member => ?_⟩
    rw [← elsewhere (ne_of_mem_of_not_mem member fresh)]
    exact rest.special place member
  · refine List.forall_mem_cons.mpr ⟨?_, rest.virtual⟩
    rw [rest.kept offset fresh, written]
  · intro place absent
    have apart : place ≠ offset := fun equal => absent (equal ▸ List.mem_cons_self)
    have later : place ∉ offsets := fun member => absent (List.mem_cons_of_mem offset member)
    rw [rest.kept place later, elsewhere apart]

/-- The bytes that differ are those at the offsets. -/
theorem changedPlaces_perm {offsets : List Nat} {before after : List UInt8}
    (overwrites : Overwrites offsets before after) : (changedPlaces before after).Perm offsets := by
  rw [List.perm_ext_iff_of_nodup (nodup_changedPlaces before after) overwrites.distinct]
  intro place
  rw [mem_changedPlaces_iff]
  constructor
  · rintro ⟨_, differ⟩
    by_contra absent
    exact differ (overwrites.kept place absent).symm
  · intro member
    have special := overwrites.special place member
    refine ⟨(List.getElem?_eq_some_iff.mp special).1, ?_⟩
    rw [special, overwrites.virtual place member]
    decide

end Overwrites

namespace Session

/-- The offsets of the instructions that became others. -/
def changedOffsets (before after : List Instruction) : List Nat :=
  (changedItems before after).map fun pair => pair.1.offset.toNat

/-- In a known raw body the opcodes at the offsets of the changed calls follow these. -/
theorem overwrites_patchBody (session : Session) (caller : String) {bytecode : List UInt8}
    (known : bytecode ≠ []) (instructions : List Instruction) :
    Overwrites
      (changedOffsets instructions (session.patchBody caller bytecode instructions).instructions)
      bytecode (session.patchBody caller bytecode instructions).bytecode := by
  induction instructions generalizing bytecode with
  | nil => exact .nil bytecode
  | cons first rest ih =>
      by_cases selected : session.selects caller bytecode first = true
      · obtain ⟨call, calls, special⟩ := special_of_selects selected
        have holds := ((session.selects_iff caller bytecode first).mp selected).2
        have here : bytecode[first.offset.toNat]? = some Opcode.invokeSpecial := by
          simpa [holdsInvokeSpecial, known] using holds
        have different := (Instruction.madeVirtual_ne calls special).symm
        rw [patchBody_of_selects selected, changedOffsets, changedItems_cons_of_ne different]
        exact .cons here (ih fun unknown => known ((List.set_eq_nil_iff _ _).mp unknown))
      · rw [patchBody_of_not_selects selected, changedOffsets, changedItems_cons_self]
        exact ih known

/-- A byte stays as it is, or it is the opcode of a special call that becomes virtual. -/
theorem getElem?_bytecode_patchBody (session : Session) (caller : String) (bytecode : List UInt8)
    (instructions : List Instruction) (place : Nat) :
    (session.patchBody caller bytecode instructions).bytecode[place]? = bytecode[place]? ∨
      bytecode[place]? = some Opcode.invokeSpecial ∧
        (session.patchBody caller bytecode instructions).bytecode[place]? =
          some Opcode.invokeVirtual ∧
        ∃ (index : Nat) (instruction : Instruction), instructions[index]? = some instruction ∧
          (session.patchBody caller bytecode instructions).instructions[index]? =
            some instruction.madeVirtual ∧
          session.appliesTo caller instruction = true ∧ instruction.offset.toNat = place := by
  by_cases unknown : bytecode = []
  · rw [unknown, bytecode_patchBody_nil]
    exact Or.inl rfl
  · have overwrites := session.overwrites_patchBody caller unknown instructions
    by_cases member : place ∈ changedOffsets instructions
        (session.patchBody caller bytecode instructions).instructions
    · obtain ⟨⟨instruction, changed⟩, item, offset⟩ := List.mem_map.mp member
      obtain ⟨index, standing, became, different⟩ := getElem?_of_mem_changedItems item
      rw [getElem?_patchBody, standing, Option.map_some, Option.some.injEq] at became
      split at became
      · rename_i selected
        have chosen := ((session.selectsAfter_iff _ _ _ _).mp selected).1
        have applies := ((session.selects_iff _ _ _).mp chosen).1
        refine Or.inr ⟨overwrites.special place member, overwrites.virtual place member, index,
          instruction, standing, ?_, applies, offset⟩
        rw [getElem?_patchBody, standing, Option.map_some, if_pos selected]
      · exact absurd became different
    · exact Or.inl (overwrites.kept place member)

/-- The number that an application gives is that of the instructions that became others. -/
theorem changed_patchBody_eq_length (session : Session) (caller : String) (bytecode : List UInt8)
    (instructions : List Instruction) :
    (session.patchBody caller bytecode instructions).changed =
      (changedItems instructions
        (session.patchBody caller bytecode instructions).instructions).length := by
  rw [changedItems, ← List.countP_eq_length_filter]
  apply changed_patchBody_eq_countP fun before after => decide (before ≠ after)
  · intro instruction
    exact decide_eq_false (not_not_intro rfl)
  · intro instruction call calls special
    exact decide_eq_true (Instruction.madeVirtual_ne calls special).symm

end Session

/-- The instruction was a special call and became the same call with virtual dispatch. -/
def Instruction.IsMadeVirtual (before after : Instruction) : Prop :=
  ∃ call : CallSite, before.operation = .invoke call ∧ call.dispatch = .special ∧
    after = ⟨before.offset, Opcode.invokeVirtual, .invoke { call with dispatch := .virtual }⟩

/-- What an application may make of a method, and the number it may give. -/
structure Method.IsApplied (before after : Method) (changed : Nat) : Prop where
  name : after.name = before.name
  descriptor : after.descriptor = before.descriptor
  access : after.access = before.access
  lines : after.lines = before.lines
  handlers : after.handlers = before.handlers
  instructions : List.Forall₂ (fun instruction result =>
      result = instruction ∨ instruction.IsMadeVirtual result)
    before.instructions after.instructions
  counted : changed = (changedItems before.instructions after.instructions).length
  length : after.bytecode.length = before.bytecode.length
  unknown : before.bytecode = [] → after.bytecode = []
  followed : before.bytecode ≠ [] →
    (changedPlaces before.bytecode after.bytecode).length = changed
  opcodes : ∀ place ∈ changedPlaces before.bytecode after.bytecode,
    before.bytecode[place]? = some Opcode.invokeSpecial ∧
    after.bytecode[place]? = some Opcode.invokeVirtual ∧
    (changedItems before.instructions after.instructions).countP
      (fun pair => pair.1.offset.toNat = place) = 1

namespace Session

theorem isMadeVirtual_of_appliesTo {session : Session} {caller : String} {instruction : Instruction}
    (applies : session.appliesTo caller instruction = true) :
    instruction.IsMadeVirtual instruction.madeVirtual := by
  obtain ⟨call, calls, rule, _, ruled⟩ := (session.appliesTo_iff caller instruction).mp applies
  obtain ⟨offset, opcode, operation⟩ := instruction
  cases operation <;> cases calls
  exact ⟨call, rfl, special_of_appliesTo ruled, rfl⟩

theorem isApplied_applyToMethod (session : Session) (caller : String) (method : Method) :
    method.IsApplied (session.applyToMethod caller method).1
      (session.applyToMethod caller method).2 where
  name := rfl
  descriptor := rfl
  access := rfl
  lines := rfl
  handlers := rfl
  instructions := by
    apply (session.forall₂_patchBody caller method.bytecode method.instructions).imp
    rintro instruction changed (kept | ⟨applies, rfl⟩)
    · exact Or.inl kept
    · exact Or.inr (isMadeVirtual_of_appliesTo applies)
  counted := session.changed_patchBody_eq_length caller method.bytecode method.instructions
  length := session.length_bytecode_patchBody caller method.bytecode method.instructions
  unknown := by
    intro unknown
    rw [applyToMethod, unknown]
    exact session.bytecode_patchBody_nil caller method.instructions
  followed := by
    intro known
    have places := (session.overwrites_patchBody caller known method.instructions).changedPlaces_perm
    rw [applyToMethod, changed_patchBody_eq_length, places.length_eq, changedOffsets,
      List.length_map]
  opcodes := by
    intro place member
    have known : method.bytecode ≠ [] := by
      intro unknown
      have bound := ((mem_changedPlaces_iff _ _ _).mp member).1
      rw [unknown] at bound
      exact Nat.not_lt_zero _ bound
    have overwrites := session.overwrites_patchBody caller known method.instructions
    have offset := overwrites.changedPlaces_perm.mem_iff.mp member
    have once := List.count_eq_one_of_mem overwrites.distinct offset
    rw [changedOffsets, List.count, List.countP_map] at once
    exact ⟨overwrites.special place offset, overwrites.virtual place offset, once⟩

/-- An application to a method makes special calls virtual and changes nothing else of the
instructions; the number it gives is that of the calls it changes. In a known raw body as many
opcodes follow, each at the offset of one changed call; an unknown body stays unknown. The calls
that change are those that the rules select and of which no earlier one stood at the same offset. An
application to a class is one to each of its methods, gives the sum of their numbers, and changes
nothing else. -/
theorem applied_exactly (session : Session) :
    (∀ (caller : String) (method : Method), method.IsApplied
      (session.applyToMethod caller method).1 (session.applyToMethod caller method).2) ∧
    (∀ (caller : String) (method : Method) (position : Nat) (instruction : Instruction),
      method.instructions[position]? = some instruction →
      ((session.applyToMethod caller method).1.instructions[position]? ≠ some instruction ↔
        session.selectsAfter caller method.bytecode (method.instructions.take position)
          instruction = true)) ∧
    ∀ owner : Class, session.apply owner =
      ({ owner with methods := owner.methods.map fun method =>
          (session.applyToMethod owner.name method).1 },
        (owner.methods.map fun method => (session.applyToMethod owner.name method).2).sum) :=
  ⟨session.isApplied_applyToMethod,
    fun caller method _ _ standing => session.changes_iff_selectsAfter caller method standing,
    session.apply_eq⟩

/-- Four calls of one method: the second finds its opcode taken by the first, the last stands past
the end, and the two others change with their bytes. -/
theorem applied_exactly_shared_offset :
    let rule : CallSiteRule := ⟨⟨"app/Hud", "draw", "()V"⟩⟩
    let session : Session := ⟨[rule], [rule.target]⟩
    let call (offset : UInt32) := Instruction.encoding offset
      (.invoke ⟨"app/Hud", "draw", "()V", .special, 0⟩)
    let method : Method := ⟨"render", "()V", .packagePrivate,
      [Opcode.invokeSpecial, 0, 7, Opcode.invokeSpecial], [call 0, call 0, call 3, call 9], [], []⟩
    let applied := session.applyToMethod "app/Hud" method
    method.IsApplied applied.1 applied.2 ∧ applied.2 = 2 ∧
      (changedPlaces method.bytecode applied.1.bytecode).length = 2 ∧
      applied.1.instructions[0]? ≠ some (call 0) ∧ applied.1.instructions[1]? = some (call 0) := by
  intro rule session call method applied
  obtain ⟨exact, changes, _⟩ := session.applied_exactly
  have counted : applied.2 = 2 := by decide +kernel
  have followed := (exact "app/Hud" method).followed (List.cons_ne_nil _ _)
  have first := (changes "app/Hud" method 0 (call 0) rfl).mpr (by decide +kernel)
  have second := not_ne_iff.mp
    ((changes "app/Hud" method 1 (call 0) rfl).not.mpr (by decide +kernel))
  exact ⟨exact "app/Hud" method, counted, followed.trans counted, first, second⟩

end Session

end MethodPatch
