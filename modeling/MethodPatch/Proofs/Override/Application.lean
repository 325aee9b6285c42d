import MethodPatch.Override.Session
import Mathlib.Algebra.BigOperators.Group.List.Basic
import Mathlib.Algebra.GroupWithZero.Nat
import Mathlib.Data.List.Basic
import Mathlib.Data.List.Flatten
import Mathlib.Data.List.Forall2

set_option autoImplicit false

namespace MethodPatch

namespace Instruction

/-- The call that the instruction makes. -/
def call? (instruction : Instruction) : Option CallSite :=
  match instruction.operation with
  | .invoke call => some call
  | _ => none

/-- The call of an instruction that was special before a change and is virtual after it. -/
def changedCall? (before after : Instruction) : Option CallSite :=
  match before.operation, after.operation with
  | .invoke call, .invoke changed =>
      if call.dispatch = .special ∧ changed.dispatch = .virtual then some call else none
  | _, _ => none

/-- The calls that were special before a change of a body and are virtual after it. -/
def changedCalls (before after : List Instruction) : List CallSite :=
  (before.zip after).filterMap fun pair => pair.1.changedCall? pair.2

/-- No two calls stand at one offset. -/
def HaveSeparateCalls (instructions : List Instruction) : Prop :=
  instructions.Pairwise fun first second =>
    first.call?.isSome → second.call?.isSome → first.offset ≠ second.offset

instance (instructions : List Instruction) : Decidable (HaveSeparateCalls instructions) :=
  inferInstanceAs (Decidable (instructions.Pairwise fun _ _ => _ → _ → _))

theorem changedCalls_cons (instruction changed : Instruction) (rest later : List Instruction) :
    changedCalls (instruction :: rest) (changed :: later) =
      (instruction.changedCall? changed).toList ++ changedCalls rest later := by
  simp only [changedCalls, List.zip_cons_cons, List.filterMap_cons]
  cases instruction.changedCall? changed <;> rfl

theorem call?_madeVirtual (instruction : Instruction) :
    instruction.madeVirtual.call? =
      instruction.call?.map fun call => { call with dispatch := .virtual } := by
  obtain ⟨offset, opcode, operation⟩ := instruction
  cases operation <;> rfl

theorem changedCall?_self (instruction : Instruction) :
    instruction.changedCall? instruction = none := by
  unfold changedCall?
  split
  · rename_i call changed first second
    rw [first, Operation.invoke.injEq] at second
    subst second
    cases special : call.dispatch <;> simp
  · rfl

theorem changedCall?_madeVirtual (instruction : Instruction) (call : CallSite)
    (calls : instruction.call? = some call) (special : call.dispatch = .special) :
    instruction.changedCall? instruction.madeVirtual = some call := by
  obtain ⟨offset, opcode, operation⟩ := instruction
  cases operation <;> cases calls
  simp [changedCall?, madeVirtual, special]

theorem madeVirtual_ne {instruction : Instruction} {call : CallSite}
    (calls : instruction.call? = some call) (special : call.dispatch = .special) :
    instruction.madeVirtual ≠ instruction := by
  intro same
  have changed := instruction.changedCall?_madeVirtual call calls special
  rw [same, instruction.changedCall?_self] at changed
  cases changed

end Instruction

theorem isEmpty_set (bytecode : List UInt8) (place : Nat) (byte : UInt8) :
    (bytecode.set place byte).isEmpty = bytecode.isEmpty := by
  cases bytecode with
  | nil => rfl
  | cons first rest => cases place <;> rfl

/-- A call that takes the opcode at its offset takes it from every call there, and from no other. -/
theorem holdsInvokeSpecial_set_iff (bytecode : List UInt8) (place offset : UInt32) :
    holdsInvokeSpecial (bytecode.set place.toNat Opcode.invokeVirtual) offset = true ↔
      holdsInvokeSpecial bytecode offset = true ∧ (bytecode ≠ [] → place ≠ offset) := by
  cases bytecode with
  | nil => simp [holdsInvokeSpecial]
  | cons first rest =>
      have known : ((first :: rest).set place.toNat Opcode.invokeVirtual).isEmpty = false :=
        isEmpty_set _ _ _
      simp only [holdsInvokeSpecial, known, List.isEmpty_cons, Bool.false_or, beq_iff_eq,
        ne_eq, reduceCtorEq, not_false_eq_true, forall_const]
      by_cases same : place = offset
      · subst same
        rw [List.getElem?_set_self']
        have written : Opcode.invokeVirtual ≠ Opcode.invokeSpecial := by decide
        cases (first :: rest)[place.toNat]? <;> simp [written]
      · have places : place.toNat ≠ offset.toNat := fun equal => same (UInt32.toNat_inj.mp equal)
        rw [List.getElem?_set_ne places]
        exact (and_iff_left same).symm

theorem CallSiteRule.selects_iff (rule : CallSiteRule) (caller : String) (method : Method)
    (instruction : Instruction) :
    rule.selects caller method instruction = true ↔
      ∃ call, instruction.call? = some call ∧ rule.appliesTo caller call = true ∧
        holdsInvokeSpecial method.bytecode instruction.offset = true := by
  obtain ⟨offset, opcode, operation⟩ := instruction
  cases operation <;> simp [selects, Instruction.call?]

namespace Session

theorem appliesTo_iff (session : Session) (caller : String) (instruction : Instruction) :
    session.appliesTo caller instruction = true ↔
      ∃ call, instruction.call? = some call ∧
        ∃ rule ∈ session.rules, rule.appliesTo caller call = true := by
  obtain ⟨offset, opcode, operation⟩ := instruction
  cases operation <;> simp [appliesTo, Instruction.call?]

theorem special_of_appliesTo {rule : CallSiteRule} {caller : String} {call : CallSite}
    (applies : rule.appliesTo caller call = true) : call.dispatch = .special := by
  simp only [CallSiteRule.appliesTo, Bool.and_eq_true, beq_iff_eq] at applies
  exact applies.1.1.1.1

/-- Some rule is for the instruction, and the bytes agree. -/
def selects (session : Session) (caller : String) (bytecode : List UInt8)
    (instruction : Instruction) : Bool :=
  session.appliesTo caller instruction && holdsInvokeSpecial bytecode instruction.offset

theorem selects_iff (session : Session) (caller : String) (bytecode : List UInt8)
    (instruction : Instruction) :
    session.selects caller bytecode instruction = true ↔
      session.appliesTo caller instruction = true ∧
        holdsInvokeSpecial bytecode instruction.offset = true :=
  Bool.and_eq_true_iff

/-- Only special calls are selected. -/
theorem special_of_selects {session : Session} {caller : String} {bytecode : List UInt8}
    {instruction : Instruction} (selected : session.selects caller bytecode instruction = true) :
    ∃ call, instruction.call? = some call ∧ call.dispatch = .special := by
  have applies := ((session.selects_iff caller bytecode instruction).mp selected).1
  obtain ⟨call, calls, rule, _, ruled⟩ := (session.appliesTo_iff caller instruction).mp applies
  exact ⟨call, calls, special_of_appliesTo ruled⟩

/-- No rule is for a virtual call. -/
theorem not_selects_madeVirtual (session : Session) (caller : String) (bytecode : List UInt8)
    (instruction : Instruction) :
    ¬ session.selects caller bytecode instruction.madeVirtual = true := by
  intro selected
  obtain ⟨call, calls, special⟩ := special_of_selects selected
  rw [Instruction.call?_madeVirtual] at calls
  obtain ⟨before, _, rfl⟩ := Option.map_eq_some_iff.mp calls
  cases special

/-- The session selects what some rule of its own selects. -/
theorem selects_iff_exists_rule (session : Session) (caller : String) (method : Method)
    (instruction : Instruction) :
    session.selects caller method.bytecode instruction = true ↔
      ∃ rule ∈ session.rules, rule.selects caller method instruction = true := by
  rw [selects_iff, appliesTo_iff]
  constructor
  · rintro ⟨⟨call, calls, rule, member, applies⟩, holds⟩
    exact ⟨rule, member, (rule.selects_iff caller method instruction).mpr
      ⟨call, calls, applies, holds⟩⟩
  · rintro ⟨rule, member, selected⟩
    obtain ⟨call, calls, applies, holds⟩ :=
      (rule.selects_iff caller method instruction).mp selected
    exact ⟨⟨call, calls, rule, member, applies⟩, holds⟩

/-- The calls that the rules of the session select in a body. -/
def selectedCalls (session : Session) (caller : String) (bytecode : List UInt8)
    (instructions : List Instruction) : List CallSite :=
  (instructions.filter (session.selects caller bytecode)).filterMap Instruction.call?

theorem selectedCalls_cons (session : Session) (caller : String) (bytecode : List UInt8)
    (instruction : Instruction) (rest : List Instruction) :
    session.selectedCalls caller bytecode (instruction :: rest) =
      (if session.selects caller bytecode instruction then instruction.call?.toList else []) ++
        session.selectedCalls caller bytecode rest := by
  by_cases selected : session.selects caller bytecode instruction = true
  · rw [if_pos selected, selectedCalls, List.filter_cons_of_pos selected, List.filterMap_cons]
    cases instruction.call? <;> rfl
  · rw [if_neg selected, selectedCalls, List.filter_cons_of_neg selected]
    rfl

theorem patchBody_of_selects {session : Session} {caller : String} {bytecode : List UInt8}
    {instruction : Instruction} (selected : session.selects caller bytecode instruction = true)
    (rest : List Instruction) :
    session.patchBody caller bytecode (instruction :: rest) =
      let later := session.patchBody caller
        (bytecode.set instruction.offset.toNat Opcode.invokeVirtual) rest
      ⟨instruction.madeVirtual :: later.instructions, later.bytecode, later.changed + 1⟩ :=
  if_pos selected

theorem patchBody_of_not_selects {session : Session} {caller : String} {bytecode : List UInt8}
    {instruction : Instruction} (passed : ¬ session.selects caller bytecode instruction = true)
    (rest : List Instruction) :
    session.patchBody caller bytecode (instruction :: rest) =
      let later := session.patchBody caller bytecode rest
      ⟨instruction :: later.instructions, later.bytecode, later.changed⟩ :=
  if_neg passed

/-- A body in which nothing is selected stays as it is. -/
theorem patchBody_of_none_selected {session : Session} {caller : String} {bytecode : List UInt8}
    {instructions : List Instruction}
    (passed : ∀ instruction ∈ instructions,
      ¬ session.selects caller bytecode instruction = true) :
    session.patchBody caller bytecode instructions = ⟨instructions, bytecode, 0⟩ := by
  induction instructions with
  | nil => rfl
  | cons first rest ih =>
      obtain ⟨here, later⟩ := List.forall_mem_cons.mp passed
      rw [patchBody_of_not_selects here, ih later]

theorem patchBody_cons (session : Session) (caller : String) (bytecode : List UInt8)
    (instruction : Instruction) (rest : List Instruction) :
    (session.patchBody caller bytecode (instruction :: rest)).instructions =
      if session.selects caller bytecode instruction then
        instruction.madeVirtual :: (session.patchBody caller
          (bytecode.set instruction.offset.toNat Opcode.invokeVirtual) rest).instructions
      else instruction :: (session.patchBody caller bytecode rest).instructions := by
  by_cases selected : session.selects caller bytecode instruction = true
  · rw [if_pos selected, patchBody_of_selects selected]
  · rw [if_neg selected, patchBody_of_not_selects selected]

/-- A selected instruction becomes virtual, and its call counts as changed. -/
theorem changedCall?_of_selects {session : Session} {caller : String} {bytecode : List UInt8}
    {instruction : Instruction} (selected : session.selects caller bytecode instruction = true) :
    instruction.changedCall? instruction.madeVirtual = instruction.call? := by
  obtain ⟨call, calls, special⟩ := special_of_selects selected
  rw [calls]
  exact instruction.changedCall?_madeVirtual call calls special

theorem selects_set_iff (session : Session) (caller : String) (bytecode : List UInt8)
    (place : UInt32) (instruction : Instruction) :
    session.selects caller (bytecode.set place.toNat Opcode.invokeVirtual) instruction = true ↔
      session.selects caller bytecode instruction = true ∧
        (bytecode ≠ [] → place ≠ instruction.offset) := by
  rw [selects_iff, selects_iff, holdsInvokeSpecial_set_iff, and_assoc]

/-- Bytes written on the way select nothing that the untouched bytes do not. -/
theorem selectedCalls_set_sublist (session : Session) (caller : String) (bytecode : List UInt8)
    (place : UInt32) (instructions : List Instruction) :
    (session.selectedCalls caller (bytecode.set place.toNat Opcode.invokeVirtual)
      instructions).Sublist (session.selectedCalls caller bytecode instructions) := by
  apply List.Sublist.filterMap
  apply List.monotone_filter_right
  intro instruction selected
  exact ((session.selects_set_iff caller bytecode place instruction).mp selected).1

/-- What is changed was selected in the body as it was. -/
theorem changedCalls_patchBody_sublist (session : Session) (caller : String)
    (bytecode : List UInt8) (instructions : List Instruction) :
    (Instruction.changedCalls instructions
      (session.patchBody caller bytecode instructions).instructions).Sublist
        (session.selectedCalls caller bytecode instructions) := by
  induction instructions generalizing bytecode with
  | nil => exact List.Sublist.refl _
  | cons instruction rest ih =>
      rw [patchBody_cons, selectedCalls_cons]
      by_cases selected : session.selects caller bytecode instruction = true
      · rw [if_pos selected, if_pos selected, Instruction.changedCalls_cons,
          changedCall?_of_selects selected]
        exact (List.Sublist.refl _).append
          ((ih _).trans (session.selectedCalls_set_sublist caller bytecode _ rest))
      · rw [if_neg selected, if_neg selected, Instruction.changedCalls_cons,
          Instruction.changedCall?_self]
        exact ih bytecode

/-- Where the raw body is known, no two instructions that the session selects share an offset. -/
def SelectsApart (session : Session) (caller : String) (bytecode : List UInt8)
    (instructions : List Instruction) : Prop :=
  bytecode ≠ [] → instructions.Pairwise fun first second =>
    session.selects caller bytecode first = true → session.selects caller bytecode second = true →
      first.offset ≠ second.offset

theorem SelectsApart.of_separate {session : Session} {caller : String} {bytecode : List UInt8}
    {instructions : List Instruction}
    (separate : bytecode ≠ [] → Instruction.HaveSeparateCalls instructions) :
    session.SelectsApart caller bytecode instructions := by
  have calls {instruction : Instruction}
      (selected : session.selects caller bytecode instruction = true) :
      instruction.call?.isSome = true := by
    obtain ⟨call, called, _⟩ := special_of_selects selected
    rw [called, Option.isSome_some]
  intro known
  apply (separate known).imp
  intro first second apart selected otherSelected
  exact apart (calls selected) (calls otherSelected)

theorem SelectsApart.tail {session : Session} {caller : String} {bytecode : List UInt8}
    {instruction : Instruction} {rest : List Instruction}
    (apart : session.SelectsApart caller bytecode (instruction :: rest)) :
    session.SelectsApart caller bytecode rest :=
  fun known => (List.pairwise_cons.mp (apart known)).2

theorem SelectsApart.set {session : Session} {caller : String} {bytecode : List UInt8}
    {instructions : List Instruction} (place : UInt32)
    (apart : session.SelectsApart caller bytecode instructions) :
    session.SelectsApart caller (bytecode.set place.toNat Opcode.invokeVirtual) instructions := by
  intro known
  have knownBefore : bytecode ≠ [] := fun unknown => known (by rw [unknown, List.set_nil])
  apply (apart knownBefore).imp
  intro first second separate selected otherSelected
  exact separate ((session.selects_set_iff caller bytecode place first).mp selected).1
    ((session.selects_set_iff caller bytecode place second).mp otherSelected).1

/-- Where selected instructions stand apart, a byte written for one of them decides about no
other. -/
theorem SelectsApart.selects_set {session : Session} {caller : String} {bytecode : List UInt8}
    {instruction : Instruction} {rest : List Instruction}
    (apart : session.SelectsApart caller bytecode (instruction :: rest))
    (selected : session.selects caller bytecode instruction = true) {other : Instruction}
    (member : other ∈ rest) :
    session.selects caller (bytecode.set instruction.offset.toNat Opcode.invokeVirtual) other =
      session.selects caller bytecode other := by
  rw [Bool.eq_iff_iff, selects_set_iff]
  apply and_iff_left_of_imp
  intro otherSelected known
  exact (List.pairwise_cons.mp (apart known)).1 other member selected otherSelected

/-- Where selected instructions stand apart, exactly the calls that the untouched body selects are
changed. -/
theorem changedCalls_patchBody (session : Session) (caller : String) (bytecode : List UInt8)
    (instructions : List Instruction)
    (apart : session.SelectsApart caller bytecode instructions) :
    Instruction.changedCalls instructions
        (session.patchBody caller bytecode instructions).instructions =
      session.selectedCalls caller bytecode instructions := by
  induction instructions generalizing bytecode with
  | nil => rfl
  | cons instruction rest ih =>
      rw [patchBody_cons, selectedCalls_cons]
      by_cases selected : session.selects caller bytecode instruction = true
      · have others : session.selectedCalls caller
            (bytecode.set instruction.offset.toNat Opcode.invokeVirtual) rest =
              session.selectedCalls caller bytecode rest := by
          rw [selectedCalls, selectedCalls]
          exact congrArg _ (List.filter_congr fun other member => apart.selects_set selected member)
        rw [if_pos selected, if_pos selected, Instruction.changedCalls_cons,
          changedCall?_of_selects selected, ih _ (apart.tail.set instruction.offset), others]
      · rw [if_neg selected, if_neg selected, Instruction.changedCalls_cons,
          Instruction.changedCall?_self, ih bytecode apart.tail]
        rfl

/-- An instruction stays as it is, or it is one that some rule is for and becomes virtual. -/
theorem forall₂_patchBody (session : Session) (caller : String) (bytecode : List UInt8)
    (instructions : List Instruction) :
    List.Forall₂ (fun instruction changed => changed = instruction ∨
        session.appliesTo caller instruction = true ∧ changed = instruction.madeVirtual)
      instructions (session.patchBody caller bytecode instructions).instructions := by
  induction instructions generalizing bytecode with
  | nil => exact List.Forall₂.nil
  | cons instruction rest ih =>
      rw [patchBody_cons]
      by_cases selected : session.selects caller bytecode instruction = true
      · have applies := ((session.selects_iff caller bytecode instruction).mp selected).1
        rw [if_pos selected]
        exact List.Forall₂.cons (Or.inr ⟨applies, rfl⟩) (ih _)
      · rw [if_neg selected]
        exact List.Forall₂.cons (Or.inl rfl) (ih bytecode)

/-- A view of instructions that does not tell a call from its virtual form sees no change. -/
theorem map_patchBody {α : Type} (view : Instruction → α)
    (kept : ∀ instruction, view instruction.madeVirtual = view instruction) (session : Session)
    (caller : String) (bytecode : List UInt8) (instructions : List Instruction) :
    (session.patchBody caller bytecode instructions).instructions.map view =
      instructions.map view := by
  induction instructions generalizing bytecode with
  | nil => rfl
  | cons instruction rest ih =>
      rw [patchBody_cons]
      split
      · rw [List.map_cons, List.map_cons, ih, kept]
      · rw [List.map_cons, List.map_cons, ih]

theorem length_bytecode_patchBody (session : Session) (caller : String) (bytecode : List UInt8)
    (instructions : List Instruction) :
    (session.patchBody caller bytecode instructions).bytecode.length = bytecode.length := by
  induction instructions generalizing bytecode with
  | nil => rfl
  | cons instruction rest ih =>
      by_cases selected : session.selects caller bytecode instruction = true
      · rw [patchBody_of_selects selected, ih, List.length_set]
      · rw [patchBody_of_not_selects selected, ih]

/-- A raw body that is not known stays so. -/
theorem bytecode_patchBody_nil (session : Session) (caller : String)
    (instructions : List Instruction) : (session.patchBody caller [] instructions).bytecode = [] :=
  List.eq_nil_of_length_eq_zero (session.length_bytecode_patchBody caller [] instructions)

/-- The number that an application gives is that of the instructions changed, by any comparison that
tells a special call from its virtual form and no instruction from itself. -/
theorem changed_patchBody_eq_countP (differ : Instruction → Instruction → Bool)
    (same : ∀ instruction, differ instruction instruction = false)
    (changed : ∀ (instruction : Instruction) (call : CallSite), instruction.call? = some call →
      call.dispatch = .special → differ instruction instruction.madeVirtual = true)
    (session : Session) (caller : String) (bytecode : List UInt8)
    (instructions : List Instruction) :
    (session.patchBody caller bytecode instructions).changed =
      (instructions.zip (session.patchBody caller bytecode instructions).instructions).countP
        fun pair => differ pair.1 pair.2 := by
  induction instructions generalizing bytecode with
  | nil => rfl
  | cons instruction rest ih =>
      by_cases selected : session.selects caller bytecode instruction = true
      · obtain ⟨call, calls, special⟩ := special_of_selects selected
        have counted := changed instruction call calls special
        rw [patchBody_of_selects selected]
        simp only [List.zip_cons_cons, List.countP_cons, counted, ↓reduceIte, ih]
      · rw [patchBody_of_not_selects selected]
        simp only [List.zip_cons_cons, List.countP_cons, same instruction, Bool.false_eq_true,
          ↓reduceIte, Nat.add_zero, ih]

/-- The number that an application gives is that of the calls it changes. -/
theorem changed_patchBody (session : Session) (caller : String) (bytecode : List UInt8)
    (instructions : List Instruction) :
    (session.patchBody caller bytecode instructions).changed =
      (Instruction.changedCalls instructions
        (session.patchBody caller bytecode instructions).instructions).length := by
  rw [Instruction.changedCalls, List.length_filterMap_eq_countP]
  apply changed_patchBody_eq_countP fun before after => (before.changedCall? after).isSome
  · intro instruction
    rw [instruction.changedCall?_self, Option.isSome_none]
  · intro instruction call calls special
    rw [instruction.changedCall?_madeVirtual call calls special, Option.isSome_some]

theorem length_patchBody (session : Session) (caller : String) (bytecode : List UInt8)
    (instructions : List Instruction) :
    (session.patchBody caller bytecode instructions).instructions.length = instructions.length :=
  (session.forall₂_patchBody caller bytecode instructions).length_eq.symm

end Session

/-- Where the raw body is known, no two calls of the method stand at one offset. -/
def Method.HasSeparateCalls (method : Method) : Prop :=
  method.bytecode ≠ [] → Instruction.HaveSeparateCalls method.instructions

instance (method : Method) : Decidable method.HasSeparateCalls :=
  inferInstanceAs (Decidable (_ → _))

namespace Class

/-- The numbers of instructions of the methods. -/
def extent (owner : Class) : List Nat := owner.methods.map fun method => method.instructions.length

/-- The calls of the methods that were special before a change of the class and are virtual after
it. -/
def changedCalls (before after : Class) : List CallSite :=
  (before.methods.zip after.methods).flatMap fun pair =>
    Instruction.changedCalls pair.1.instructions pair.2.instructions

/-- The same for classes, each compared with the one at its place in the other list. -/
def allChangedCalls (before after : List Class) : List CallSite :=
  (before.zip after).flatMap fun pair => pair.1.changedCalls pair.2

end Class

namespace Session

/-- The calls that the rules of the session select in a class. -/
def selectedIn (session : Session) (owner : Class) : List CallSite :=
  owner.methods.flatMap fun method =>
    session.selectedCalls owner.name method.bytecode method.instructions

theorem apply_methods (session : Session) (owner : Class) :
    (session.apply owner).1.methods =
      owner.methods.map fun method => (session.applyToMethod owner.name method).1 := by
  simp only [apply, List.map_map, Function.comp_def]

/-- An application to a class is one to each of its methods. -/
theorem apply_eq (session : Session) (owner : Class) :
    session.apply owner =
      ({ owner with methods := owner.methods.map fun method =>
          (session.applyToMethod owner.name method).1 },
        (owner.methods.map fun method => (session.applyToMethod owner.name method).2).sum) := by
  simp only [apply, List.map_map, List.sum, List.foldr_map]
  rfl

@[simp] theorem extent_apply (session : Session) (owner : Class) :
    (session.apply owner).1.extent = owner.extent := by
  simp only [Class.extent, apply_methods, List.map_map]
  apply List.map_congr_left
  intro method _
  exact session.length_patchBody owner.name method.bytecode method.instructions

theorem changedCalls_apply_eq (session : Session) (owner : Class) :
    owner.changedCalls (session.apply owner).1 =
      owner.methods.flatMap fun method =>
        Instruction.changedCalls method.instructions
          (session.patchBody owner.name method.bytecode method.instructions).instructions := by
  have paired := List.zip_map' (f := fun method : Method => method)
    (g := fun method => (session.applyToMethod owner.name method).1) (l := owner.methods)
  rw [Class.changedCalls, apply_methods]
  rw [List.map_id'] at paired
  rw [paired, List.flatMap_map]
  rfl

theorem changedCalls_apply_sublist (session : Session) (owner : Class) :
    (owner.changedCalls (session.apply owner).1).Sublist (session.selectedIn owner) := by
  rw [changedCalls_apply_eq]
  exact List.Sublist.flatMap_right owner.methods fun method _ =>
    session.changedCalls_patchBody_sublist owner.name method.bytecode method.instructions

theorem changedCalls_apply (session : Session) (owner : Class)
    (separate : ∀ method ∈ owner.methods, method.HasSeparateCalls) :
    owner.changedCalls (session.apply owner).1 = session.selectedIn owner := by
  rw [changedCalls_apply_eq]
  apply List.flatMap_congr
  intro method member
  exact session.changedCalls_patchBody owner.name method.bytecode method.instructions
    (SelectsApart.of_separate (separate method member))

theorem selects_congr {session other : Session}
    (same : ∀ rule, rule ∈ session.rules ↔ rule ∈ other.rules) (caller : String)
    (bytecode : List UInt8) (instruction : Instruction) :
    session.selects caller bytecode instruction = other.selects caller bytecode instruction := by
  rw [Bool.eq_iff_iff, selects_iff, selects_iff, appliesTo_iff, appliesTo_iff]
  simp only [same]

theorem patchBody_congr {session other : Session}
    (same : ∀ rule, rule ∈ session.rules ↔ rule ∈ other.rules) (caller : String)
    (bytecode : List UInt8) (instructions : List Instruction) :
    session.patchBody caller bytecode instructions =
      other.patchBody caller bytecode instructions := by
  induction instructions generalizing bytecode with
  | nil => rfl
  | cons instruction rest ih =>
      have alike := selects_congr same caller bytecode instruction
      by_cases chosen : session.selects caller bytecode instruction = true
      · rw [patchBody_of_selects chosen, patchBody_of_selects (alike ▸ chosen), ih]
      · rw [patchBody_of_not_selects chosen, patchBody_of_not_selects (alike ▸ chosen), ih]

/-- The order of the rules is no matter to an application. -/
theorem apply_congr {session other : Session}
    (same : ∀ rule, rule ∈ session.rules ↔ rule ∈ other.rules) (owner : Class) :
    session.apply owner = other.apply owner := by
  simp only [apply_eq, applyToMethod, patchBody_congr same]

/-- The classes after the rules were applied to each. -/
def applied (session : Session) (classes : List Class) : List Class :=
  classes.map fun owner => (session.apply owner).1

theorem applied_congr {session other : Session}
    (same : ∀ rule, rule ∈ session.rules ↔ rule ∈ other.rules) (classes : List Class) :
    session.applied classes = other.applied classes := by
  simp only [applied, apply_congr same]

theorem allChangedCalls_applied_eq (session : Session) (classes : List Class) :
    Class.allChangedCalls classes (session.applied classes) =
      classes.flatMap fun owner => owner.changedCalls (session.apply owner).1 := by
  have paired := List.zip_map' (f := fun owner : Class => owner)
    (g := fun owner => (session.apply owner).1) (l := classes)
  rw [List.map_id'] at paired
  rw [Class.allChangedCalls, applied, paired, List.flatMap_map]

theorem allChangedCalls_applied_sublist (session : Session) (classes : List Class) :
    (Class.allChangedCalls classes (session.applied classes)).Sublist
      (classes.flatMap session.selectedIn) := by
  rw [allChangedCalls_applied_eq]
  exact List.Sublist.flatMap_right classes fun owner _ => session.changedCalls_apply_sublist owner

theorem allChangedCalls_applied (session : Session) (classes : List Class)
    (separate : ∀ owner ∈ classes, ∀ method ∈ owner.methods, method.HasSeparateCalls) :
    Class.allChangedCalls classes (session.applied classes) =
      classes.flatMap session.selectedIn := by
  rw [allChangedCalls_applied_eq]
  apply List.flatMap_congr
  intro owner member
  exact session.changedCalls_apply owner (separate owner member)

end Session

end MethodPatch
