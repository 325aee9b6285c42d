import MethodPatch.Proofs.Override.Effect
import MethodPatch.Proofs.Override.Workspace

set_option autoImplicit false

namespace MethodPatch

/-- The operations, the opcodes and the bytes agree, and no two instructions share an offset. -/
structure Method.IsCoherent (method : Method) : Prop where
  apart : (method.instructions.map (·.offset)).Nodup
  encoded : ∀ instruction ∈ method.instructions, instruction.opcode = instruction.operation.opcode
  held : method.bytecode ≠ [] → ∀ instruction ∈ method.instructions,
    method.bytecode[instruction.offset.toNat]? = some instruction.opcode

theorem Method.isCoherent_iff (method : Method) :
    method.IsCoherent ↔ (method.instructions.map (·.offset)).Nodup ∧
      (∀ instruction ∈ method.instructions, instruction.opcode = instruction.operation.opcode) ∧
      (method.bytecode ≠ [] → ∀ instruction ∈ method.instructions,
        method.bytecode[instruction.offset.toNat]? = some instruction.opcode) :=
  ⟨fun ⟨apart, encoded, held⟩ => ⟨apart, encoded, held⟩,
    fun ⟨apart, encoded, held⟩ => ⟨apart, encoded, held⟩⟩

instance (method : Method) : Decidable method.IsCoherent :=
  decidable_of_iff _ method.isCoherent_iff.symm

/-- All methods of the class are coherent. -/
def Class.IsCoherent (owner : Class) : Prop := ∀ method ∈ owner.methods, method.IsCoherent

instance (owner : Class) : Decidable owner.IsCoherent :=
  inferInstanceAs (Decidable (∀ method ∈ owner.methods, method.IsCoherent))

theorem Instruction.opcode_madeVirtual {instruction : Instruction} {call : CallSite}
    (calls : instruction.call? = some call) :
    instruction.madeVirtual.opcode = Opcode.invokeVirtual ∧
      instruction.madeVirtual.operation.opcode = Opcode.invokeVirtual := by
  obtain ⟨offset, opcode, operation⟩ := instruction
  cases operation <;> cases calls
  exact ⟨rfl, rfl⟩

theorem Instruction.opcode_of_call? {instruction : Instruction} {call : CallSite}
    (calls : instruction.call? = some call) :
    instruction.operation.opcode = call.dispatch.opcode := by
  obtain ⟨offset, opcode, operation⟩ := instruction
  cases operation <;> cases calls
  rfl

/-- Instructions of a coherent method are told apart by their offsets. -/
theorem Method.IsCoherent.eq_of_offset {method : Method} (coherent : method.IsCoherent)
    {first second : Instruction} (member : first ∈ method.instructions)
    (other : second ∈ method.instructions) (same : first.offset = second.offset) :
    first = second :=
  List.inj_on_of_nodup_map coherent.apart member other same

/-- Widening does not meet what coherence is about. -/
theorem Method.isCoherent_widened {method : Method} (coherent : method.IsCoherent) :
    method.widened.IsCoherent :=
  ⟨coherent.apart, coherent.encoded, coherent.held⟩

namespace Session

variable {session : Session} {caller : String} {method : Method}

/-- The instruction after an application that skips none: virtual if some rule is for it. -/
def redispatched (session : Session) (caller : String) (instruction : Instruction) : Instruction :=
  if session.appliesTo caller instruction then instruction.madeVirtual else instruction

theorem offset_redispatched (session : Session) (caller : String) (instruction : Instruction) :
    (session.redispatched caller instruction).offset = instruction.offset := by
  rw [redispatched]
  split
  · exact instruction.offset_madeVirtual
  · rfl

/-- The bytes of a coherent method speak against no call: what some rule is for is selected. -/
theorem selects_of_isCoherent (coherent : method.IsCoherent) {instruction : Instruction}
    (member : instruction ∈ method.instructions) :
    session.selects caller method.bytecode instruction =
      session.appliesTo caller instruction := by
  rw [Bool.eq_iff_iff, selects_iff]
  apply and_iff_left_of_imp
  intro applies
  obtain ⟨call, calls, rule, _, ruled⟩ := (session.appliesTo_iff caller instruction).mp applies
  have opcode : instruction.opcode = Opcode.invokeSpecial := by
    rw [coherent.encoded instruction member, Instruction.opcode_of_call? calls,
      special_of_appliesTo ruled]
    rfl
  by_cases known : method.bytecode = []
  · rw [known]
    rfl
  · rw [holdsInvokeSpecial, coherent.held known instruction member, opcode, beq_self_eq_true,
      Bool.or_true]

/-- Where the selected instructions stand apart, all of them become virtual. -/
theorem instructions_patchBody (session : Session) (caller : String) (bytecode : List UInt8)
    (instructions : List Instruction)
    (apart : session.SelectsApart caller bytecode instructions) :
    (session.patchBody caller bytecode instructions).instructions =
      instructions.map fun instruction =>
        if session.selects caller bytecode instruction then instruction.madeVirtual
        else instruction := by
  induction instructions generalizing bytecode with
  | nil => rfl
  | cons instruction rest ih =>
      rw [patchBody_cons, List.map_cons]
      by_cases selected : session.selects caller bytecode instruction = true
      · rw [if_pos selected, if_pos selected, ih _ (apart.tail.set instruction.offset)]
        refine congrArg _ (List.map_congr_left fun other member => ?_)
        rw [apart.selects_set selected member]
      · rw [if_neg selected, if_neg selected, ih bytecode apart.tail]

/-- In a coherent method an application skips no instruction. -/
theorem instructions_applyToMethod (coherent : method.IsCoherent) :
    (session.applyToMethod caller method).1.instructions =
      method.instructions.map (session.redispatched caller) := by
  have apart : session.SelectsApart caller method.bytecode method.instructions :=
    fun _ => (List.pairwise_map.mp coherent.apart).imp fun separate _ _ => separate
  rw [applyToMethod, instructions_patchBody _ _ _ _ apart]
  apply List.map_congr_left
  intro instruction member
  rw [selects_of_isCoherent coherent member, redispatched]

theorem mem_changedOffsets_map (change : Instruction → Instruction)
    (instructions : List Instruction) (place : Nat) :
    place ∈ changedOffsets instructions (instructions.map change) ↔
      ∃ instruction ∈ instructions,
        instruction ≠ change instruction ∧ instruction.offset.toNat = place := by
  have paired := List.zip_map' (f := fun instruction : Instruction => instruction)
    (g := change) (l := instructions)
  rw [List.map_id'] at paired
  simp [changedOffsets, changedItems, paired, and_assoc]

/-- The byte of an instruction is written exactly if some rule is for the instruction itself. -/
theorem mem_changedOffsets_iff (session : Session) (caller : String) (coherent : method.IsCoherent)
    {instruction : Instruction} (member : instruction ∈ method.instructions) :
    instruction.offset.toNat ∈ changedOffsets method.instructions
        (session.applyToMethod caller method).1.instructions ↔
      session.appliesTo caller instruction = true := by
  rw [instructions_applyToMethod coherent, mem_changedOffsets_map]
  constructor
  · rintro ⟨other, otherMember, changed, same⟩
    have equal : other = instruction :=
      coherent.eq_of_offset otherMember member (UInt32.toNat_inj.mp same)
    by_contra passed
    exact changed (by rw [equal, redispatched, if_neg passed])
  · intro applies
    obtain ⟨call, calls, rule, _, ruled⟩ := (session.appliesTo_iff caller instruction).mp applies
    refine ⟨instruction, member, ?_, rfl⟩
    rw [redispatched, if_pos applies]
    exact (Instruction.madeVirtual_ne calls (special_of_appliesTo ruled)).symm

/-- What an application leaves of a coherent method is coherent. -/
theorem isCoherent_applyToMethod (coherent : method.IsCoherent) (session : Session)
    (caller : String) : (session.applyToMethod caller method).1.IsCoherent := by
  have instructions : (session.applyToMethod caller method).1.instructions =
      method.instructions.map (session.redispatched caller) := instructions_applyToMethod coherent
  refine ⟨?_, ?_, ?_⟩
  · have offsets : (fun instruction : Instruction => instruction.offset) ∘
        session.redispatched caller = fun instruction => instruction.offset :=
      funext (session.offset_redispatched caller)
    rw [instructions, List.map_map, offsets]
    exact coherent.apart
  · rw [instructions]
    refine List.forall_mem_map.mpr fun instruction member => ?_
    by_cases applies : session.appliesTo caller instruction = true
    · obtain ⟨call, calls, _⟩ := (session.appliesTo_iff caller instruction).mp applies
      obtain ⟨opcode, encoded⟩ := Instruction.opcode_madeVirtual calls
      rw [redispatched, if_pos applies, opcode, encoded]
    · rw [redispatched, if_neg applies]
      exact coherent.encoded instruction member
  · intro knownAfter
    have known : method.bytecode ≠ [] := by
      intro unknown
      rw [applyToMethod, unknown] at knownAfter
      exact knownAfter (session.bytecode_patchBody_nil caller method.instructions)
    have overwrites := session.overwrites_patchBody caller known method.instructions
    rw [instructions]
    refine List.forall_mem_map.mpr fun instruction member => ?_
    have written := mem_changedOffsets_iff session caller coherent member
    rw [offset_redispatched]
    by_cases applies : session.appliesTo caller instruction = true
    · obtain ⟨call, calls, _⟩ := (session.appliesTo_iff caller instruction).mp applies
      rw [redispatched, if_pos applies, (Instruction.opcode_madeVirtual calls).1]
      exact overwrites.virtual _ (written.mpr applies)
    · rw [redispatched, if_neg applies, ← coherent.held known instruction member]
      exact overwrites.kept _ (mt written.mp applies)

/-- An application leaves no call in a coherent method that some rule is for. -/
theorem not_appliesTo_applyToMethod (coherent : method.IsCoherent) {call : CallSite}
    (left : call ∈ (session.applyToMethod caller method).1.calls) {rule : CallSiteRule}
    (member : rule ∈ session.rules) : rule.appliesTo caller call = false := by
  obtain ⟨instruction, standing, calls⟩ := List.mem_filterMap.mp left
  have settled := (session.isSettledIn_iff caller _).mp
    (session.isSettledIn_applyToMethod caller method) instruction standing
  rw [selects_of_isCoherent (isCoherent_applyToMethod coherent session caller) standing] at settled
  rw [← Bool.not_eq_true]
  exact fun ruled => settled
    ((session.appliesTo_iff caller instruction).mpr ⟨call, calls, rule, member, ruled⟩)

variable {owner : Class}

theorem isCoherent_modifyMethod (coherent : owner.IsCoherent) (name descriptor : String) :
    (owner.modifyMethod name descriptor Method.widened).IsCoherent := by
  intro changed member
  rcases FirstMatch.mem_modify _ _ member with declared | ⟨method, declared, rfl⟩
  · exact coherent changed declared
  · exact Method.isCoherent_widened (coherent method declared)

/-- An attempt leaves a coherent class, whatever its answer. -/
theorem isCoherent_attempt (coherent : owner.IsCoherent) (session : Session)
    (name descriptor : String) : (session.attempt owner name descriptor).2.owner.IsCoherent := by
  rcases session.attempt_cases owner name descriptor with ⟨_, refused⟩ | ⟨_, _, _, _, made⟩
  · rw [refused]
    exact coherent
  · rw [made]
    exact isCoherent_modifyMethod coherent name descriptor

theorem isCoherent_apply (coherent : owner.IsCoherent) (session : Session) :
    (session.apply owner).1.IsCoherent := by
  rw [Class.IsCoherent, apply_methods]
  exact List.forall_mem_map.mpr fun method member =>
    isCoherent_applyToMethod (coherent method member) session owner.name

end Session

namespace Workspace

/-- The methods of all classes are coherent. -/
def IsCoherent (workspace : Workspace) : Prop := ∀ owner ∈ workspace.classes, owner.IsCoherent

theorem IsCoherent.step {workspace : Workspace} (coherent : workspace.IsCoherent)
    (action : Action) : (workspace.step action).workspace.IsCoherent := by
  refine forall_mem_step coherent ?_ (fun owner kept => Session.isCoherent_apply kept _) action
  intro session owner opened name descriptor kept made
  obtain ⟨_, _, _, _, _, rfl⟩ := (Session.makeOverridable_eq_ok_iff _ _ _ _ _ _).mp made
  exact Session.isCoherent_modifyMethod kept name descriptor

theorem IsCoherent.run {workspace : Workspace} (coherent : workspace.IsCoherent)
    (actions : List Action) : (workspace.run actions).workspace.IsCoherent := by
  induction actions generalizing workspace with
  | nil => exact coherent
  | cons action rest ih => exact ih (coherent.step action)

/-- Whatever registrations and applications coherent classes have been through, with no or any rules
to begin with, they are coherent. One more attempt keeps each of them coherent, whether it succeeds
or not, and so does one more application; this makes every call virtual that some rule is for, skips
none, and leaves no call behind that some rule is for. -/
theorem coherent_throughout (workspace : Workspace) (coherent : workspace.IsCoherent)
    (actions : List Action) :
    let reached := (workspace.run actions).workspace
    reached.IsCoherent ∧ ∀ owner ∈ reached.classes,
      (∀ name descriptor, (reached.session.attempt owner name descriptor).2.owner.IsCoherent) ∧
      let applied := (reached.session.apply owner).1
      applied.IsCoherent ∧
      (applied.methods.map (·.instructions) = owner.methods.map fun method =>
        method.instructions.map (reached.session.redispatched owner.name)) ∧
      ∀ method ∈ applied.methods, ∀ call ∈ method.calls, ∀ rule ∈ reached.session.rules,
        rule.appliesTo owner.name call = false := by
  intro reached
  have kept : reached.IsCoherent := coherent.run actions
  refine ⟨kept, fun owner member => ⟨?_, ?_, ?_, ?_⟩⟩
  · exact Session.isCoherent_attempt (kept owner member) reached.session
  · exact Session.isCoherent_apply (kept owner member) reached.session
  · rw [Session.apply_methods, List.map_map]
    exact List.map_congr_left fun method declared =>
      Session.instructions_applyToMethod (kept owner member method declared)
  · rw [Session.apply_methods]
    exact List.forall_mem_map.mpr fun method declared call left rule ruled =>
      Session.not_appliesTo_applyToMethod (kept owner member method declared) left ruled

/-- An application before the registration finds nothing to change, the one after it finds two calls
of the method, which are among others of another class and of other kinds. -/
theorem coherent_throughout_drawing :
    let call (owner name : String) (dispatch : Dispatch) (offset : UInt32) :=
      Instruction.encoding offset (.invoke ⟨owner, name, "()V", dispatch, offset⟩)
    let render : Method := ⟨"render", "()V", .packagePrivate,
      [180, 0, 1, 183, 0, 2, 183, 0, 3, 182, 0, 4, 183, 0, 2],
      [.encoding 0 (.field ⟨"app/Hud", "state", "I", false, false⟩),
        call "app/Hud" "draw" .special 3, call "app/Screen" "draw" .special 6,
        call "app/Hud" "tick" .virtual 9, call "app.Hud" "draw" .special 12], [], []⟩
    let hud : Class := ⟨"app/Hud", none, false,
      [⟨"draw", "()V", .onlyPrivate, [], [], [], []⟩, render], 0⟩
    let workspace : Workspace := ⟨.start, [hud]⟩
    let reached := (workspace.run [.apply 0, .register 0 "draw" "()V"]).workspace
    workspace.IsCoherent ∧ reached.IsCoherent ∧
      ∃ owner ∈ reached.classes, (reached.session.apply owner).1.IsCoherent ∧
        (reached.session.apply owner).2 = 2 := by
  intro call render hud workspace reached
  have coherent : workspace.IsCoherent := by
    unfold IsCoherent
    decide +kernel
  obtain ⟨kept, each⟩ := workspace.coherent_throughout coherent [.apply 0, .register 0 "draw" "()V"]
  have standing : reached.classes[0]? =
      some (hud.modifyMethod "draw" "()V" Method.widened) := by decide +kernel
  have member := List.mem_of_getElem? standing
  exact ⟨coherent, kept, _, member, (each _ member).2.1, by decide +kernel⟩

end Workspace

end MethodPatch
