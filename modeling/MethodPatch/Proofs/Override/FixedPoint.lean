import MethodPatch.Proofs.Override.Application
import MethodPatch.Proofs.Override.Registration

set_option autoImplicit false

namespace MethodPatch

theorem holdsInvokeSpecial_eq_false_iff (bytecode : List UInt8) (offset : UInt32) :
    holdsInvokeSpecial bytecode offset = false ↔
      bytecode ≠ [] ∧ bytecode[offset.toNat]? ≠ some Opcode.invokeSpecial := by
  simp [holdsInvokeSpecial]

namespace Session

/-- The bytes of the method speak against each of its calls that some rule is for. -/
def IsSettledIn (session : Session) (caller : String) (method : Method) : Prop :=
  ∀ instruction ∈ method.instructions, session.appliesTo caller instruction = true →
    method.bytecode ≠ [] ∧ method.bytecode[instruction.offset.toNat]? ≠ some Opcode.invokeSpecial

/-- No method of the class has a call left that the rules would change. -/
def IsSettled (session : Session) (owner : Class) : Prop :=
  ∀ method ∈ owner.methods, session.IsSettledIn owner.name method

theorem isSettledIn_iff (session : Session) (caller : String) (method : Method) :
    session.IsSettledIn caller method ↔ ∀ instruction ∈ method.instructions,
      ¬ session.selects caller method.bytecode instruction = true := by
  simp only [IsSettledIn, selects_iff, not_and, Bool.not_eq_true, holdsInvokeSpecial_eq_false_iff]

/-- The opcode of a special call that is there after an application was there before it. -/
theorem holdsInvokeSpecial_of_patchBody {session : Session} {caller : String}
    {bytecode : List UInt8} {instructions : List Instruction} {offset : UInt32}
    (holds : holdsInvokeSpecial (session.patchBody caller bytecode instructions).bytecode offset =
      true) :
    holdsInvokeSpecial bytecode offset = true := by
  induction instructions generalizing bytecode with
  | nil => exact holds
  | cons first rest ih =>
      by_cases selected : session.selects caller bytecode first = true
      · rw [patchBody_of_selects selected] at holds
        exact ((holdsInvokeSpecial_set_iff bytecode first.offset offset).mp (ih holds)).1
      · rw [patchBody_of_not_selects selected] at holds
        exact ih holds

/-- Bytes that an application has left select nothing that the bytes before it did not. -/
theorem selects_of_patchBody {session : Session} {caller : String} {bytecode : List UInt8}
    {instructions : List Instruction} {instruction : Instruction}
    (selected : session.selects caller (session.patchBody caller bytecode instructions).bytecode
      instruction = true) :
    session.selects caller bytecode instruction = true := by
  rw [selects_iff] at selected ⊢
  exact ⟨selected.1, holdsInvokeSpecial_of_patchBody selected.2⟩

/-- In a body that was patched nothing is selected: neither the calls that were changed, which are
virtual, nor those that were passed by. -/
theorem not_selects_patchBody {session : Session} {caller : String} {bytecode : List UInt8}
    {instructions : List Instruction} {instruction : Instruction}
    (member : instruction ∈ (session.patchBody caller bytecode instructions).instructions) :
    ¬ session.selects caller (session.patchBody caller bytecode instructions).bytecode
      instruction = true := by
  induction instructions generalizing bytecode with
  | nil => cases member
  | cons first rest ih =>
      by_cases selected : session.selects caller bytecode first = true
      · rw [patchBody_of_selects selected] at member ⊢
        rcases List.mem_cons.mp member with rfl | later
        · exact session.not_selects_madeVirtual caller _ first
        · exact ih later
      · rw [patchBody_of_not_selects selected] at member ⊢
        rcases List.mem_cons.mp member with rfl | later
        · exact fun selectedAfter => selected (selects_of_patchBody selectedAfter)
        · exact ih later

theorem isSettledIn_applyToMethod (session : Session) (caller : String) (method : Method) :
    session.IsSettledIn caller (session.applyToMethod caller method).1 :=
  (session.isSettledIn_iff caller _).mpr fun _ => not_selects_patchBody

theorem isSettled_apply (session : Session) (owner : Class) :
    session.IsSettled (session.apply owner).1 := by
  rw [IsSettled, apply_methods]
  intro changed member
  obtain ⟨method, _, rfl⟩ := List.mem_map.mp member
  exact session.isSettledIn_applyToMethod owner.name method

theorem applyToMethod_of_isSettledIn {session : Session} {caller : String} {method : Method}
    (settled : session.IsSettledIn caller method) :
    session.applyToMethod caller method = (method, 0) := by
  rw [applyToMethod, patchBody_of_none_selected ((session.isSettledIn_iff caller method).mp settled)]

theorem apply_of_isSettled {session : Session} {owner : Class}
    (settled : session.IsSettled owner) : session.apply owner = (owner, 0) := by
  have kept (method : Method) (member : method ∈ owner.methods) :=
    applyToMethod_of_isSettledIn (settled method member)
  have methods : (owner.methods.map fun method => (session.applyToMethod owner.name method).1) =
      owner.methods :=
    (List.map_congr_left fun method member => congrArg Prod.fst (kept method member)).trans
      (List.map_id' _)
  have changed : (owner.methods.map fun method => (session.applyToMethod owner.name method).2) =
      owner.methods.map fun _ => 0 :=
    List.map_congr_left fun method member => congrArg Prod.snd (kept method member)
  rw [apply_eq, methods, changed, List.map_const', List.sum_replicate_nat, Nat.mul_zero]

/-- The classes that an application leaves as they are. -/
theorem apply_eq_self_iff (session : Session) (owner : Class) :
    session.apply owner = (owner, 0) ↔ session.IsSettled owner := by
  constructor
  · intro unchanged
    have settled := session.isSettled_apply owner
    rwa [unchanged] at settled
  · exact apply_of_isSettled

/-- Applying the same rules again changes nothing. -/
theorem apply_apply_self (session : Session) (owner : Class) :
    session.apply (session.apply owner).1 = ((session.apply owner).1, 0) :=
  apply_of_isSettled (session.isSettled_apply owner)

/-- One application settles a class: the bytes speak against every call that is left for some rule,
and the same rules applied again change nothing and give 0. The same rules in another order make the
same of the class, give the same number, and change nothing afterwards either. -/
theorem apply_fixed_point (session reordered : Session) (owner : Class)
    (permuted : reordered.rules.Perm session.rules) :
    let settled := (session.apply owner).1
    session.IsSettled settled ∧ session.apply settled = (settled, 0) ∧
      reordered.apply owner = session.apply owner ∧
      reordered.IsSettled settled ∧ reordered.apply settled = (settled, 0) := by
  intro settled
  have same : reordered.apply owner = session.apply owner :=
    apply_congr (fun _ => permuted.mem_iff) owner
  have again := reordered.apply_apply_self owner
  have stillSettled := reordered.isSettled_apply owner
  rw [same] at again stillSettled
  exact ⟨session.isSettled_apply owner, session.apply_apply_self owner, same, stillSettled, again⟩

/-- Of two calls at one offset, each for a rule of its own, the first takes the byte under both
orders of the rules, and the second stays special for good. -/
theorem apply_fixed_point_shared_offset :
    let call (name : String) := Instruction.encoding 0
      (.invoke ⟨"app/Hud", name, "()V", .special, 0⟩)
    let hud : Class := ⟨"app/Hud", none, false, [⟨"render", "()V", .packagePrivate,
      [Opcode.invokeSpecial, 0, 7], [call "draw", call "fill"], [], []⟩], 0⟩
    let session := (start.adding ⟨"app/Hud", "draw", "()V"⟩).adding ⟨"app/Hud", "fill", "()V"⟩
    let reordered := (start.adding ⟨"app/Hud", "fill", "()V"⟩).adding ⟨"app/Hud", "draw", "()V"⟩
    let settled := (session.apply hud).1
    reordered.rules.Perm session.rules ∧
      session.apply settled = (settled, 0) ∧ reordered.apply hud = (settled, 1) ∧
      reordered.apply settled = (settled, 0) ∧
      settled.methods.map (·.instructions) = [[(call "draw").madeVirtual, call "fill"]] := by
  intro call hud session reordered settled
  have permuted : reordered.rules.Perm session.rules := List.Perm.swap _ _ []
  obtain ⟨_, again, same, _, reorderedAgain⟩ := session.apply_fixed_point reordered hud permuted
  have counted : session.apply hud = (settled, 1) := by decide +kernel
  exact ⟨permuted, again, same.trans counted, reorderedAgain, by decide +kernel⟩

end Session

end MethodPatch
