import MethodPatch.Proofs.Plan.Registration

set_option autoImplicit false

namespace MethodPatch

namespace OverrideRequest

/-- The methods of a class that the request asks for. -/
def askedIn (request : OverrideRequest) (owner : Class) : List Method :=
  if request.isFor owner then
    owner.methods.filter (·.isNamed request.method request.descriptor)
  else []

/-- Everything that the request asks for, class by class. -/
def occurrences (request : OverrideRequest) (classes : List Class) : List Method :=
  classes.flatMap request.askedIn

theorem mem_occurrences (request : OverrideRequest) (classes : List Class) (method : Method) :
    method ∈ request.occurrences classes ↔
      ∃ owner ∈ classes, request.isFor owner = true ∧ method ∈ owner.methods ∧
        method.isNamed request.method request.descriptor = true := by
  rw [occurrences, List.mem_flatMap]
  apply exists_congr
  intro owner
  apply and_congr_right
  intro _
  by_cases asked : request.isFor owner = true
  · rw [askedIn, if_pos asked, List.mem_filter]
    exact (and_iff_right asked).symm
  · rw [askedIn, if_neg asked]
    exact ⟨fun member => absurd member List.not_mem_nil, fun other => absurd other.1 asked⟩

/-- Widening opens the first occurrence only. -/
theorem occurrences_widen (request : OverrideRequest) {classes : List Class} {owner : Class}
    {method : Method} (found : classes.find? request.isFor = some owner)
    (declared : owner.method? request.method request.descriptor = some method) :
    ∃ rest, request.occurrences classes = method :: rest ∧
      request.occurrences (request.widen classes) = method.widened :: rest := by
  induction classes with
  | nil => cases found
  | cons first others ih =>
      by_cases asked : request.isFor first = true
      · have same : first = owner := by simpa [asked] using found
        subst same
        have named := Class.named_of_method? declared
        have kept : method.widened.isNamed request.method request.descriptor = true :=
          (Method.isNamed_iff _ _ _).mpr named
        obtain ⟨rest, before, after⟩ := FirstMatch.filter_modify _ Method.widened _ method
          declared kept
        have askedStill : request.isFor (first.modifyMethod request.method request.descriptor
          Method.widened) = true := asked
        refine ⟨rest ++ request.occurrences others, ?_, ?_⟩
        · rw [occurrences, List.flatMap_cons, askedIn, if_pos asked, before]
          rfl
        · rw [widen, FirstMatch.modify_cons, if_pos asked, occurrences, List.flatMap_cons, askedIn,
            if_pos askedStill, Class.modifyMethod, after]
          rfl
      · have later : others.find? request.isFor = some owner := by simpa [asked] using found
        obtain ⟨rest, before, after⟩ := ih later
        have nothing : request.askedIn first = [] := if_neg asked
        refine ⟨rest, ?_, ?_⟩
        · rw [occurrences, List.flatMap_cons, nothing]
          exact before
        · rw [widen, FirstMatch.modify_cons, if_neg asked, occurrences, List.flatMap_cons, nothing]
          exact after

/-- Widening for one request leaves what another one asks for, where their targets differ. -/
theorem occurrences_widen_of_ne (request other : OverrideRequest) (classes : List Class)
    (different : request.target? classes ≠ other.target? classes) :
    request.occurrences (other.widen classes) = request.occurrences classes := by
  have kept : ∀ owner, other.isFor owner = true →
      request.askedIn (owner.modifyMethod other.method other.descriptor Method.widened) =
        request.askedIn owner := by
    intro owner otherAsked
    by_cases asked : request.isFor owner = true
    · have askedStill : request.isFor (owner.modifyMethod other.method other.descriptor
        Method.widened) = true := asked
      rw [askedIn, askedIn, if_pos asked, if_pos askedStill]
      have methods := not_named_alike_of_target?_ne (isFor_eq_of_isFor otherAsked asked)
        (Ne.symm different)
      apply FirstMatch.filter_modify_of_apart
      intro method named
      have apart := Method.not_isNamed_of_isNamed methods named
      exact ⟨apart, apart⟩
    · have askedStill : ¬ request.isFor (owner.modifyMethod other.method other.descriptor
        Method.widened) = true := asked
      rw [askedIn, askedIn, if_neg asked, if_neg askedStill]
  rw [occurrences, occurrences, List.flatMap_def, List.flatMap_def]
  exact congrArg List.flatten (FirstMatch.map_modify _ _ _ _ kept)

/-- What registering one request does to what it asks for, and to the registered keys. -/
theorem register_occurrences {request : OverrideRequest} {session next : Session}
    {classes widened : List Class}
    (success : request.register session classes = .ok (next, widened)) :
    ∃ key method rest, request.target? classes = some key ∧ session.isRegistered key = false ∧
      next = session.adding key ∧ request.occurrences classes = method :: rest ∧
      request.occurrences widened = method.widened :: rest := by
  obtain ⟨owner, method, found, declared, fresh, _, rfl, rfl⟩ :=
    (request.register_eq_ok_iff session next classes widened).mp success
  obtain ⟨rest, before, after⟩ := request.occurrences_widen found declared
  refine ⟨_, method, rest, ?_, fresh, rfl, before, after⟩
  rw [target?, found, Option.map_some]

/-- Requests registered later leave what a registered one asked for. -/
theorem registerAll_occurrences_of_registered {requests : List OverrideRequest}
    {session last : Session} {classes widened : List Class}
    (success : registerAll session classes requests = .ok (last, widened))
    {request : OverrideRequest} {key : MethodKey} (target : request.target? classes = some key)
    (registered : session.isRegistered key = true) :
    request.occurrences widened = request.occurrences classes := by
  induction requests generalizing session classes with
  | nil =>
      cases success
      rfl
  | cons first others ih =>
      obtain ⟨next, step, later⟩ := registerAll_cons_ok success
      obtain ⟨other, _, _, otherTarget, fresh, rfl, _, _⟩ := register_occurrences step
      have different : request.target? classes ≠ first.target? classes := by
        rw [target, otherTarget]
        intro same
        rw [Option.some.inj same, fresh] at registered
        cases registered
      have still : (session.adding other).isRegistered key = true := by
        rw [Session.isRegistered_adding, registered, Bool.true_or]
      rw [ih later (by rw [target?_widen]; exact target) still,
        request.occurrences_widen_of_ne first classes different]

/-- Registering opens the first occurrence of what each request asks for and no other. -/
theorem registerAll_occurrences {requests : List OverrideRequest} {session last : Session}
    {classes widened : List Class}
    (success : registerAll session classes requests = .ok (last, widened))
    {request : OverrideRequest} (member : request ∈ requests) :
    ∃ method rest, request.occurrences classes = method :: rest ∧
      request.occurrences widened = method.widened :: rest := by
  induction requests generalizing session classes with
  | nil => cases member
  | cons first others ih =>
      obtain ⟨next, registered, later⟩ := registerAll_cons_ok success
      obtain ⟨key, method, rest, target, _, rfl, before, after⟩ := register_occurrences registered
      have known : (session.adding key).isRegistered key = true := by
        rw [Session.isRegistered_adding, beq_self_eq_true, Bool.or_true]
      rcases List.mem_cons.mp member with rfl | member
      · refine ⟨method, rest, before, ?_⟩
        rw [registerAll_occurrences_of_registered later (by rw [target?_widen]; exact target) known,
          after]
      · obtain ⟨other, otherTarget, otherFresh⟩ := registerAll_fresh later member
        have different : request.target? classes ≠ first.target? classes := by
          rw [target?_widen] at otherTarget
          rw [target, otherTarget]
          intro same
          rw [Option.some.inj same, known] at otherFresh
          cases otherFresh
        rw [← request.occurrences_widen_of_ne first classes different]
        exact ih later member

end OverrideRequest

/-- Applying rules changes the access of no method. -/
theorem Session.access_occurrences_applied (session : Session) (request : OverrideRequest)
    (classes : List Class) :
    (request.occurrences (session.applied classes)).map (·.access) =
      (request.occurrences classes).map (·.access) := by
  have kept : ∀ owner : Class, (request.askedIn (session.apply owner).1).map (·.access) =
      (request.askedIn owner).map (·.access) := by
    intro owner
    have sameAnswer : request.isFor (session.apply owner).1 = request.isFor owner := rfl
    rw [OverrideRequest.askedIn, OverrideRequest.askedIn, sameAnswer]
    by_cases asked : request.isFor owner = true
    · rw [if_pos asked, if_pos asked, apply_methods, List.filter_map, List.map_map]
      rfl
    · rw [if_neg asked, if_neg asked]
  simp only [OverrideRequest.occurrences, applied, List.flatMap_map, List.map_flatMap, kept]

/-- Every method that goes by the key, in any class of its owner's type, is open for overriding. -/
def MethodKey.IsOpenIn (key : MethodKey) (classes : List Class) : Prop :=
  ∀ owner ∈ classes, TypeName.same owner.name key.owner = true →
    ∀ method ∈ owner.methods, method.isNamed key.name key.descriptor = true →
      method.access.isRestricted = false

instance (key : MethodKey) (classes : List Class) : Decidable (key.IsOpenIn classes) :=
  inferInstanceAs (Decidable (∀ owner ∈ classes, _ → ∀ method ∈ owner.methods, _ → _))

namespace PatchPlan

/-- The target of a request stands for all that the request asks for. -/
theorem isOpenIn_target_iff {request : OverrideRequest} {classes : List Class} {key : MethodKey}
    (target : request.target? classes = some key) (others : List Class) :
    key.IsOpenIn others ↔
      ∀ method ∈ request.occurrences others, method.access.isRestricted = false := by
  obtain ⟨owner, found, rfl⟩ := Option.map_eq_some_iff.mp target
  have spelled := request.named_of_find? found
  simp only [MethodKey.IsOpenIn, OverrideRequest.mem_occurrences, OverrideRequest.isFor,
    TypeName.same_congr_right spelled]
  constructor
  · rintro opened method ⟨other, member, named, declared, asked⟩
    exact opened other member named method declared asked
  · intro opened other member named method declared asked
    exact opened method ⟨other, member, named, declared, asked⟩

theorem occurrences_applyOverrides {plan : PatchPlan} {classes patched : List Class}
    {outcomes : List OverrideOutcome}
    (success : plan.applyOverrides classes = .ok (outcomes, patched)) {request : OverrideRequest}
    (member : request ∈ plan.overrides) :
    (∀ method ∈ request.occurrences patched, method.access.isRestricted = false) ↔
      ∀ method ∈ (request.occurrences classes).tail, method.access.isRestricted = false := by
  obtain ⟨session, widened, registered, _, rfl⟩ := applyOverrides_ok success
  obtain ⟨first, rest, before, after⟩ := OverrideRequest.registerAll_occurrences registered member
  have accesses := session.access_occurrences_applied request widened
  have opened : first.widened.access.isRestricted = false := first.access.isRestricted_widened
  have inAccess (methods : List Method) :
      (∀ method ∈ methods, method.access.isRestricted = false) ↔
        ∀ access ∈ methods.map (·.access), access.isRestricted = false := by
    rw [List.forall_mem_map]
  rw [inAccess, accesses, ← inAccess, before, after, List.forall_mem_cons, List.tail_cons]
  exact and_iff_right opened

/-- After the overrides of a plan, the methods whose calls they change are all open exactly when
every request asks for no restricted method but the first: one of a class that is loaded again, or
one that a class repeats, stays as it was. -/
theorem isOpenIn_applyOverrides_iff (plan : PatchPlan) (classes patched : List Class)
    (outcomes : List OverrideOutcome)
    (success : plan.applyOverrides classes = .ok (outcomes, patched)) :
    (∀ outcome ∈ outcomes, outcome.method.IsOpenIn patched) ↔
      ∀ request ∈ plan.overrides, ∀ method ∈ (request.occurrences classes).tail,
        method.access.isRestricted = false := by
  have targets := applyOverrides_targets success
  constructor
  · intro opened request member
    have listed := targets.mem_iff.mpr (List.mem_map_of_mem member)
    obtain ⟨outcome, outcomeMember, target⟩ := List.mem_map.mp listed
    have asked := (isOpenIn_target_iff target.symm patched).mp (opened outcome outcomeMember)
    exact (occurrences_applyOverrides success member).mp asked
  · intro opened outcome member
    have listed := targets.mem_iff.mp (List.mem_map_of_mem member)
    obtain ⟨request, requestMember, target⟩ := List.mem_map.mp listed
    have asked := (occurrences_applyOverrides success requestMember).mpr
      (opened request requestMember)
    exact (isOpenIn_target_iff target patched).mpr asked

/-- A class that is loaded again is no exception where its method was open from the start. -/
theorem isOpenIn_applyOverrides_reloaded :
    let plan : PatchPlan := ⟨[], [⟨"app.Hud", "draw", "()V"⟩]⟩
    let classes := [Class.drawing "app/Hud" .onlyPrivate .special,
      Class.drawing "app.Hud" Access.onlyPrivate.widened .special]
    let patched := ["app/Hud", "app.Hud"].map fun name =>
      Class.drawing name Access.onlyPrivate.widened .virtual
    plan.applyOverrides classes = .ok ([⟨⟨"app/Hud", "draw", "()V"⟩, 2⟩], patched) ∧
      MethodKey.IsOpenIn ⟨"app/Hud", "draw", "()V"⟩ patched := by
  intro plan classes patched
  have success : plan.applyOverrides classes =
      .ok ([⟨⟨"app/Hud", "draw", "()V"⟩, 2⟩], patched) := by decide +kernel
  have rest : ∀ request ∈ plan.overrides, ∀ method ∈ (request.occurrences classes).tail,
      method.access.isRestricted = false := by decide +kernel
  have opened := (plan.isOpenIn_applyOverrides_iff classes patched _ success).mpr rest
  exact ⟨success, opened _ List.mem_cons_self⟩

/-- A private method of a class that is loaded twice is called virtually in both places and opened
in one. -/
theorem not_isOpenIn_loaded_twice :
    let plan : PatchPlan := ⟨[], [⟨"app.Hud", "draw", "()V"⟩]⟩
    let classes := ["app/Hud", "app.Hud"].map fun name =>
      Class.drawing name .onlyPrivate .special
    let patched := [Class.drawing "app/Hud" Access.onlyPrivate.widened .virtual,
      Class.drawing "app.Hud" .onlyPrivate .virtual]
    plan.applyOverrides classes = .ok ([⟨⟨"app/Hud", "draw", "()V"⟩, 2⟩], patched) ∧
      ¬ MethodKey.IsOpenIn ⟨"app/Hud", "draw", "()V"⟩ patched := by
  intro plan classes patched
  have success : plan.applyOverrides classes =
      .ok ([⟨⟨"app/Hud", "draw", "()V"⟩, 2⟩], patched) := by decide +kernel
  exact ⟨success, by decide +kernel⟩

end PatchPlan

end MethodPatch
