import MethodPatch.Proofs.Override.Effect
import MethodPatch.Proofs.Plan.RequestOrder

set_option autoImplicit false

namespace MethodPatch

/-- The instruction was a special call that the rule of one of the methods is for, made in the class
`caller`, and became the same call with virtual dispatch. -/
def Instruction.IsRedirected (targets : List MethodKey) (caller : String)
    (before after : Instruction) : Prop :=
  ∃ call : CallSite, before.operation = .invoke call ∧ call.dispatch = .special ∧
    (∃ key ∈ targets, CallSiteRule.appliesTo ⟨key⟩ caller call = true) ∧
    after = ⟨before.offset, Opcode.invokeVirtual, .invoke { call with dispatch := .virtual }⟩

/-- What may have become of a method of the class `caller`. Only an opened method has other access,
and a byte differs only where it is the opcode of a redirected call. -/
structure Method.IsPatched (targets : List MethodKey) (caller : String) (opened : Bool)
    (before after : Method) : Prop where
  name : after.name = before.name
  descriptor : after.descriptor = before.descriptor
  access : after.access = if opened then
      { before.access with isPrivate := false, isProtected := true }
    else before.access
  instructions : List.Forall₂ (fun instruction changed =>
      changed = instruction ∨ instruction.IsRedirected targets caller changed)
    before.instructions after.instructions
  bytecode : ∀ place : Nat, after.bytecode[place]? = before.bytecode[place]? ∨
    before.bytecode[place]? = some Opcode.invokeSpecial ∧
      after.bytecode[place]? = some Opcode.invokeVirtual ∧
      ∃ (index : Nat) (instruction changed : Instruction),
        before.instructions[index]? = some instruction ∧
        after.instructions[index]? = some changed ∧
        instruction.IsRedirected targets caller changed ∧ instruction.offset.toNat = place
  lines : after.lines = before.lines
  handlers : after.handlers = before.handlers

/-- What may have become of a class whose methods at some positions were opened. -/
structure Class.IsPatched (targets : List MethodKey) (opened : Nat → Bool)
    (before after : Class) : Prop where
  name : after.name = before.name
  parent : after.parent = before.parent
  isInterface : after.isInterface = before.isInterface
  artifact : after.artifact = before.artifact
  length : after.methods.length = before.methods.length
  methods : ∀ (position : Nat) (method changed : Method),
    before.methods[position]? = some method → after.methods[position]? = some changed →
      method.IsPatched targets before.name (opened position) changed

/-- The class with its methods at some positions opened. -/
def Class.widenedAt (opened : Nat → Bool) (owner : Class) : Class :=
  { owner with methods := owner.methods.mapIdx fun position method =>
      if opened position then method.widened else method }

@[simp] theorem Method.widened_widened (method : Method) :
    method.widened.widened = method.widened := rfl

theorem Class.widenedAt_none (owner : Class) : owner.widenedAt (fun _ => false) = owner := by
  have kept : owner.methods.mapIdx (fun _ method => method) = owner.methods := by
    apply List.ext_getElem?
    intro position
    rw [List.getElem?_mapIdx, Option.map_id']
  simp only [widenedAt, Bool.false_eq_true, ↓reduceIte, kept]

theorem Class.widenedAt_widenedAt (first later : Nat → Bool) (owner : Class) :
    (owner.widenedAt first).widenedAt later =
      owner.widenedAt fun position => first position || later position := by
  simp only [widenedAt, List.mapIdx_mapIdx, Class.mk.injEq, and_true, true_and]
  apply List.ext_getElem?
  intro position
  rw [List.getElem?_mapIdx, List.getElem?_mapIdx]
  apply congrArg fun change => owner.methods[position]?.map change
  funext method
  by_cases opened : first position = true <;> by_cases again : later position = true <;>
    simp [opened, again]

namespace OverrideRequest

/-- The request asks for the method at a position of the class at a place: the first of its name and
descriptor in the first class of the requested type. -/
def pointsTo (request : OverrideRequest) (classes : List Class) (place position : Nat) : Bool :=
  classes.findIdx? request.isFor == some place &&
    classes[place]?.any fun owner =>
      owner.methods.findIdx? (·.isNamed request.method request.descriptor) == some position

/-- Some request asks for the method at a position of the class at a place. -/
def anyPointsTo (requests : List OverrideRequest) (classes : List Class) (place position : Nat) :
    Bool :=
  requests.any fun request => request.pointsTo classes place position

theorem pointsTo_unflagged (request : OverrideRequest) (classes : List Class) :
    request.pointsTo (classes.map Class.unflagged) = request.pointsTo classes := by
  funext place position
  have found (owner : Class) : owner.unflagged.methods.findIdx?
      (·.isNamed request.method request.descriptor) =
        owner.methods.findIdx? (·.isNamed request.method request.descriptor) := by
    rw [Class.unflagged, List.findIdx?_map]
    rfl
  have chosen : request.isFor ∘ Class.unflagged = request.isFor := rfl
  simp only [pointsTo, List.findIdx?_map, chosen, List.getElem?_map, Option.any_map,
    found]

/-- What a request points to does not move when methods are widened. -/
theorem pointsTo_widen (request other : OverrideRequest) (classes : List Class) :
    request.pointsTo (other.widen classes) = request.pointsTo classes := by
  rw [← pointsTo_unflagged, widen_unflagged, pointsTo_unflagged]

/-- A request that is carried out opens the method that it points to. -/
theorem getElem?_widen (request : OverrideRequest) (classes : List Class) (place : Nat) :
    (request.widen classes)[place]? =
      classes[place]?.map (Class.widenedAt (request.pointsTo classes place)) := by
  rw [widen, FirstMatch.getElem?_modify]
  cases standing : classes[place]? with
  | none => simp
  | some owner =>
      by_cases here : classes.findIdx? request.isFor = some place
      · rw [if_pos here]
        simp only [Option.map_some, Class.modifyMethod, Class.widenedAt, Option.some.injEq,
          Class.mk.injEq, and_true, true_and]
        apply List.ext_getElem?
        intro position
        rw [FirstMatch.getElem?_modify, List.getElem?_mapIdx]
        simp only [pointsTo, here, standing, beq_self_eq_true, Bool.true_and, Option.any_some,
          beq_iff_eq]
        split <;> simp
      · rw [if_neg here]
        have nowhere : request.pointsTo classes place = fun _ => false := by
          funext position
          rw [pointsTo, beq_eq_false_iff_ne.mpr here, Bool.false_and]
        rw [nowhere, Option.map_some, Class.widenedAt_none]

/-- Requests that are carried out open exactly the methods that they point to. -/
theorem getElem?_widenAll (requests : List OverrideRequest) (classes : List Class) (place : Nat) :
    (widenAll requests classes)[place]? =
      classes[place]?.map (Class.widenedAt (anyPointsTo requests classes place)) := by
  induction requests generalizing classes with
  | nil =>
      have nothing : anyPointsTo [] classes place = fun _ => false := rfl
      rw [nothing]
      show classes[place]? = _
      cases classes[place]? with
      | none => rfl
      | some owner => rw [Option.map_some, Class.widenedAt_none]
  | cons request rest ih =>
      have still : anyPointsTo rest (request.widen classes) place =
          anyPointsTo rest classes place := by
        funext position
        simp only [anyPointsTo, pointsTo_widen]
      show (widenAll rest (request.widen classes))[place]? = _
      rw [ih, still, getElem?_widen, Option.map_map]
      congr 1
      funext owner
      exact owner.widenedAt_widenedAt _ _

/-- A request that is clear points to a method. -/
theorem exists_pointsTo_of_isClear {request : OverrideRequest} {classes : List Class}
    (clear : request.isClear classes = true) :
    ∃ place position, request.pointsTo classes place position = true := by
  unfold isClear candidate? at clear
  cases found : classes.find? request.isFor with
  | none =>
      rw [found] at clear
      cases clear
  | some owner =>
      cases declared : owner.method? request.method request.descriptor with
      | none =>
          rw [found, Option.bind_some, declared] at clear
          cases clear
      | some method =>
          obtain ⟨place, first, standing⟩ := FirstMatch.exists_findIdx?_of_find? found
          obtain ⟨position, firstMethod, _⟩ := FirstMatch.exists_findIdx?_of_find? declared
          refine ⟨place, position, ?_⟩
          simp only [pointsTo, first, standing, firstMethod, Option.any_some, beq_self_eq_true,
            Bool.and_self]

end OverrideRequest

namespace Session

theorem isRedirected_of_appliesTo {targets : List MethodKey} {caller : String}
    {instruction : Instruction}
    (applies : (start.addingAll targets).appliesTo caller instruction = true) :
    instruction.IsRedirected targets caller instruction.madeVirtual := by
  obtain ⟨call, calls, rule, member, ruled⟩ := (appliesTo_iff _ caller instruction).mp applies
  rw [rules_addingAll] at member
  obtain ⟨key, listed, rfl⟩ := List.mem_map.mp member
  obtain ⟨offset, opcode, operation⟩ := instruction
  cases operation <;> cases calls
  exact ⟨call, rfl, special_of_appliesTo ruled, ⟨key, listed, ruled⟩, rfl⟩

/-- What widening and then applying rules make of a method. -/
theorem isPatched_applyToMethod (targets : List MethodKey) (caller : String) (opened : Bool)
    (method : Method) :
    method.IsPatched targets caller opened
      ((start.addingAll targets).applyToMethod caller
        (if opened then method.widened else method)).1 := by
  let session : Session := start.addingAll targets
  have changes : List.Forall₂ (fun instruction changed =>
      changed = instruction ∨ instruction.IsRedirected targets caller changed)
      method.instructions
        (session.patchBody caller method.bytecode method.instructions).instructions := by
    apply (session.forall₂_patchBody caller method.bytecode method.instructions).imp
    rintro instruction changed (kept | ⟨applies, rfl⟩)
    · exact Or.inl kept
    · exact Or.inr (isRedirected_of_appliesTo applies)
  have bytes : ∀ place : Nat,
      (session.patchBody caller method.bytecode method.instructions).bytecode[place]? =
          method.bytecode[place]? ∨
        method.bytecode[place]? = some Opcode.invokeSpecial ∧
          (session.patchBody caller method.bytecode method.instructions).bytecode[place]? =
            some Opcode.invokeVirtual ∧
          ∃ (index : Nat) (instruction changed : Instruction),
            method.instructions[index]? = some instruction ∧
            (session.patchBody caller method.bytecode method.instructions).instructions[index]? =
              some changed ∧
            instruction.IsRedirected targets caller changed ∧
              instruction.offset.toNat = place := by
    intro place
    rcases session.getElem?_bytecode_patchBody caller method.bytecode method.instructions place with
      kept | ⟨special, virtual, index, instruction, standing, changed, applies, offset⟩
    · exact Or.inl kept
    · exact Or.inr ⟨special, virtual, index, instruction, _, standing, changed,
        isRedirected_of_appliesTo applies, offset⟩
  cases opened with
  | true => exact ⟨rfl, rfl, rfl, changes, bytes, rfl, rfl⟩
  | false => exact ⟨rfl, rfl, rfl, changes, bytes, rfl, rfl⟩

theorem isPatched_apply (targets : List MethodKey) (opened : Nat → Bool) (owner : Class) :
    owner.IsPatched targets opened
      ((start.addingAll targets).apply (owner.widenedAt opened)).1 := by
  refine ⟨rfl, rfl, rfl, rfl, ?_, ?_⟩
  · rw [apply_methods, List.length_map, Class.widenedAt, List.length_mapIdx]
  · intro position method changed standing after
    simp only [apply_methods, Class.widenedAt, List.getElem?_map, List.getElem?_mapIdx, standing,
      Option.map_some, Option.some.injEq] at after
    rw [← after]
    exact isPatched_applyToMethod targets owner.name (opened position) method

end Session

namespace PatchPlan

/-- The overrides of a plan change nothing but this: every request opens the one method that it
points to, calls for registered methods become virtual, and so do their opcodes in the raw
bodies. -/
theorem applyOverrides_changes (plan : PatchPlan) (classes patched : List Class)
    (outcomes : List OverrideOutcome)
    (success : plan.applyOverrides classes = .ok (outcomes, patched)) :
    (∀ request ∈ plan.overrides, ∃ place position,
      request.pointsTo classes place position = true) ∧
    patched.length = classes.length ∧
    ∀ (place : Nat) (before after : Class),
      classes[place]? = some before → patched[place]? = some after →
        before.IsPatched (OverrideRequest.targets plan.overrides classes)
          (OverrideRequest.anyPointsTo plan.overrides classes place) after := by
  obtain ⟨clears, _, _, rfl⟩ := (plan.applyOverrides_eq_ok_iff classes _ _).mp success
  refine ⟨fun request member => OverrideRequest.exists_pointsTo_of_isClear (clears request member),
    ?_, ?_⟩
  · have kept := congrArg List.length (OverrideRequest.widenAll_unflagged plan.overrides classes)
    rw [List.length_map, List.length_map] at kept
    rw [Session.applied, List.length_map, kept]
  · intro place before after standing changed
    simp only [Session.applied, List.getElem?_map, OverrideRequest.getElem?_widenAll, standing,
      Option.map_some, Option.some.injEq] at changed
    rw [← changed]
    exact Session.isPatched_apply _ _ before

/-- Of a class that is loaded twice the first gets its method opened, and the second only has its
call redirected. -/
theorem applyOverrides_changes_loaded_twice :
    let plan : PatchPlan := ⟨[], [⟨"app.Hud", "draw", "()V"⟩]⟩
    let classes := ["app/Hud", "app.Hud"].map fun name =>
      Class.drawing name .onlyPrivate .special
    let again := Class.drawing "app.Hud" .onlyPrivate .virtual
    let patched := [Class.drawing "app/Hud" Access.onlyPrivate.widened .virtual, again]
    let opened := OverrideRequest.anyPointsTo plan.overrides classes
    plan.applyOverrides classes = .ok ([⟨⟨"app/Hud", "draw", "()V"⟩, 2⟩], patched) ∧
      opened 0 0 = true ∧ opened 1 0 = false ∧
      (Class.drawing "app.Hud" .onlyPrivate .special).IsPatched [⟨"app/Hud", "draw", "()V"⟩]
        (opened 1) again := by
  intro plan classes again patched opened
  have success : plan.applyOverrides classes =
      .ok ([⟨⟨"app/Hud", "draw", "()V"⟩, 2⟩], patched) := by decide +kernel
  have targets : OverrideRequest.targets plan.overrides classes =
      [⟨"app/Hud", "draw", "()V"⟩] := by decide +kernel
  have changes := (plan.applyOverrides_changes classes patched _ success).2.2 1 _ again rfl rfl
  rw [targets] at changes
  exact ⟨success, by decide +kernel, by decide +kernel, changes⟩

end PatchPlan

end MethodPatch
