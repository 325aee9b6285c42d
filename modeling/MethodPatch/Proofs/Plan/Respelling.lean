import MethodPatch.Proofs.Override.InternalForm
import MethodPatch.Proofs.Plan.AnchorFrame
import MethodPatch.Proofs.Plan.RequestOrder

set_option autoImplicit false

namespace MethodPatch

/-- The criteria with their owners in internal form. -/
def SequenceSpec.internal (spec : SequenceSpec) : SequenceSpec :=
  ⟨spec.before.map Criteria.internal, spec.last.map Criteria.internal⟩

def AnchorRequest.internal (request : AnchorRequest) : AnchorRequest :=
  { request with
    className := TypeName.internal request.className
    sequence := request.sequence.internal }

def OverrideRequest.internal (request : OverrideRequest) : OverrideRequest :=
  { request with className := TypeName.internal request.className }

/-- The plan with the class names of its requests and the owners of its criteria in internal
form. -/
def PatchPlan.internal (plan : PatchPlan) : PatchPlan :=
  ⟨plan.anchors.map AnchorRequest.internal, plan.overrides.map OverrideRequest.internal⟩

/-- The type that an operation names. -/
def Operation.typeName? : Operation → Option String
  | .invoke call => some call.owner
  | .field use => some use.owner
  | .newObject type | .checkCast type | .instanceOf type => some type
  | .newArray component _ => some component
  | .loadText _ | .other _ => none

/-- The type names of a body as they are spelled: those of the instructions, then those of the
handlers. -/
def Method.typeNames (method : Method) : List String :=
  method.instructions.filterMap (·.operation.typeName?) ++ method.handlers.filterMap (·.caught)

/-- The type names of each body. -/
def Class.typeNames (owner : Class) : List (List String) := owner.methods.map Method.typeNames

theorem Method.typeNames_plain (method : Method) : method.plain.typeNames = method.typeNames := by
  have named (instruction : Instruction) :
      instruction.plain.operation.typeName? = instruction.operation.typeName? := by
    obtain ⟨offset, opcode, operation⟩ := instruction
    cases operation <;> rfl
  simp only [typeNames, plain, List.filterMap_map, Function.comp_def, named]

theorem Class.typeNames_plain (owner : Class) : owner.plain.typeNames = owner.typeNames := by
  simp only [typeNames, plain, List.map_map, Function.comp_def, Method.typeNames_plain]

/-- Overrides spell no name anew. -/
theorem PatchPlan.typeNames_applyOverrides {plan : PatchPlan} {classes patched : List Class}
    {outcomes : List OverrideOutcome}
    (success : plan.applyOverrides classes = .ok (outcomes, patched)) :
    patched.map Class.typeNames = classes.map Class.typeNames := by
  have alike := congrArg (List.map Class.typeNames) (plain_of_applyOverrides success)
  simp only [List.map_map, Function.comp_def, Class.typeNames_plain] at alike
  exact alike

namespace SequenceSpec

/-- The internal form of a sequence compiles where the sequence does, and answers alike. -/
theorem compile_internal {spec : SequenceSpec} {sequence : MatchSequence}
    (compiled : spec.compile = .ok sequence) :
    ∃ translated, spec.internal.compile = .ok translated ∧
      translated.Mirrors sequence Visit.internal id := by
  obtain ⟨last, named, rfl⟩ := (spec.compile_eq_ok_iff sequence).mp compiled
  have namedInternal : spec.internal.last = some last.internal := by
    rw [internal, named]
    rfl
  refine ⟨_, (spec.internal.compile_eq_ok_iff _).mpr ⟨last.internal, namedInternal, rfl⟩, ?_⟩
  -- Positions hold no names, so the anchors need no translation.
  refine ⟨by simp only [MatchSequence.ofCriteria, internal, List.length_map], ?_, fun _ => rfl⟩
  intro passed shown
  simp only [MatchSequence.matcherAt, MatchSequence.ofCriteria, internal, List.getElem?_map]
  cases spec.before[passed]? with
  | none => exact last.accepts_internal shown
  | some criteria => exact criteria.accepts_internal shown

theorem compile_internal_error {spec : SequenceSpec} {reason : MatchError}
    (refused : spec.compile = .error reason) : spec.internal.compile = .error reason := by
  rw [compile_eq] at refused ⊢
  cases absent : spec.last with
  | none =>
      rw [absent] at refused
      rw [internal, absent]
      exact refused
  | some last =>
      rw [absent] at refused
      cases refused

end SequenceSpec

namespace AnchorRequest

theorem isForClass_internal (request : AnchorRequest) (owner : Class) :
    request.internal.isForClass owner = request.isForClass owner :=
  TypeName.same_internal_right owner.name request.className

theorem compile_internal_error {request : AnchorRequest} {fault : PlanFault}
    (refused : request.compile = .error fault) : request.internal.compile = .error fault := by
  unfold compile at refused ⊢
  cases compiled : request.sequence.compile with
  | ok sequence =>
      rw [compiled] at refused
      cases refused
  | error reason =>
      rw [compiled] at refused
      have translated : request.internal.sequence.compile = .error reason :=
        SequenceSpec.compile_internal_error compiled
      rw [translated]
      exact refused

/-- No request asks how a type name is spelled. -/
theorem isKeptBy_internal : IsKeptBy internal Method.internal := by
  refine ⟨fun _ => rfl, fun _ => rfl, isForClass_internal, fun _ _ => rfl, fun _ => rfl,
    fun _ => rfl, fun _ _ refused => compile_internal_error refused, ?_⟩
  intro request sequence compiled
  obtain ⟨translated, success, mirrors⟩ :=
    SequenceSpec.compile_internal ((request.compile_eq_ok_iff sequence).mp compiled)
  refine ⟨translated, (request.internal.compile_eq_ok_iff translated).mpr success, ?_⟩
  intro owner method
  have moved := request.anchorsIn_moved request.internal rfl mirrors (method.visits_internal owner)
  exact moved.trans (List.map_id _)

end AnchorRequest

theorem PatchPlan.locateAnchors_internal (plan : PatchPlan) (classes : List Class) :
    plan.internal.locateAnchors (classes.map Class.internal) = plan.locateAnchors classes :=
  AnchorRequest.isKeptBy_internal.locateAll plan.anchors classes

namespace Class

theorem method?_internal (owner : Class) (name descriptor : String) :
    owner.internal.method? name descriptor =
      (owner.method? name descriptor).map Method.internal := by
  simp only [method?, internal, List.find?_map]
  rfl

theorem modifyMethod_internal (owner : Class) (name descriptor : String) :
    owner.internal.modifyMethod name descriptor Method.widened =
      (owner.modifyMethod name descriptor Method.widened).internal := by
  have methods := FirstMatch.modify_map Method.internal (·.isNamed name descriptor)
    Method.widened Method.widened owner.methods fun _ => rfl
  simp only [modifyMethod, internal, methods]
  rfl

end Class

namespace OverrideRequest

variable (request : OverrideRequest) (requests : List OverrideRequest) (classes : List Class)

theorem isFor_internal : request.internal.isFor = request.isFor := by
  funext owner
  exact TypeName.same_internal_right owner.name request.className

theorem find?_internal :
    (classes.map Class.internal).find? request.internal.isFor =
      (classes.find? request.isFor).map Class.internal := by
  rw [isFor_internal, List.find?_map]
  rfl

theorem target?_internal :
    request.internal.target? (classes.map Class.internal) = request.target? classes := by
  rw [target?, find?_internal, target?, Option.map_map]
  rfl

theorem targets_internal :
    targets (requests.map internal) (classes.map Class.internal) = targets requests classes := by
  rw [targets, List.filterMap_map, targets]
  exact List.filterMap_congr fun request _ => request.target?_internal classes

theorem isClear_internal :
    request.internal.isClear (classes.map Class.internal) = request.isClear classes := by
  rw [isClear, isClear, candidate?, candidate?, find?_internal]
  cases classes.find? request.isFor with
  | none => rfl
  | some owner =>
      rw [Option.map_some, Option.bind_some, Option.bind_some, Class.method?_internal,
        Option.map_map]
      rfl

theorem widen_internal :
    request.internal.widen (classes.map Class.internal) =
      (request.widen classes).map Class.internal := by
  rw [widen, isFor_internal, widen]
  exact FirstMatch.modify_map Class.internal request.isFor _ _ classes
    fun owner => owner.modifyMethod_internal request.method request.descriptor

theorem widenAll_internal :
    widenAll (requests.map internal) (classes.map Class.internal) =
      (widenAll requests classes).map Class.internal := by
  induction requests generalizing classes with
  | nil => rfl
  | cons request rest ih =>
      have first := request.widen_internal classes
      rw [List.map_cons, widenAll, List.foldl_cons, first]
      exact ih (request.widen classes)

end OverrideRequest

namespace CallSiteRule

theorem countCalls_internal (rule : CallSiteRule) (classes : List Class) :
    rule.countCalls (classes.map Class.internal) = rule.countCalls classes := by
  have inMethod (caller : String) (method : Method) :
      rule.selects caller method.internal ∘ Instruction.internal = rule.selects caller method := by
    funext instruction
    exact rule.selects_internal caller method instruction
  simp only [countCalls, List.length_flatMap, List.map_map]
  congr 2
  funext owner
  simp only [Function.comp_apply, Class.internal, List.map_map]
  congr 2
  funext method
  have filtered : method.internal.instructions.filter (rule.selects owner.name method.internal) =
      (method.instructions.filter (rule.selects owner.name method)).map Instruction.internal := by
    rw [Method.internal, List.filter_map]
    exact congrArg _ (congrArg (List.filter · _) (inMethod owner.name method))
  rw [Function.comp_apply, filtered, List.length_map]

end CallSiteRule

namespace PatchPlan

theorem report_internal (keys : List MethodKey) (classes : List Class) :
    report keys (classes.map Class.internal) = report keys classes := by
  have same : outcome (classes.map Class.internal) = outcome classes := by
    funext key
    rw [outcome, CallSiteRule.countCalls_internal, outcome]
  rw [report, same, report]

/-- The overrides of a plan in internal form, on classes in internal form, come to what they are on
the classes as spelled. -/
theorem applyOverrides_internal_iff (plan : PatchPlan) (classes spelled : List Class)
    (outcomes : List OverrideOutcome) :
    plan.internal.applyOverrides (classes.map Class.internal) = .ok (outcomes, spelled) ↔
      ∃ patched, plan.applyOverrides classes = .ok (outcomes, patched) ∧
        patched.map Class.internal = spelled := by
  have clears : (∀ request ∈ plan.overrides.map OverrideRequest.internal,
      request.isClear (classes.map Class.internal) = true) ↔
        ∀ request ∈ plan.overrides, request.isClear classes = true := by
    rw [List.forall_mem_map]
    simp only [OverrideRequest.isClear_internal]
  simp only [applyOverrides_eq_ok_iff, internal, clears, OverrideRequest.targets_internal,
    OverrideRequest.widenAll_internal, report_internal, Session.applied_internal]
  constructor
  · rintro ⟨clear, distinct, reported, rfl⟩
    exact ⟨_, ⟨clear, distinct, reported, rfl⟩, rfl⟩
  · rintro ⟨patched, ⟨clear, distinct, reported, rfl⟩, rfl⟩
    exact ⟨clear, distinct, reported, rfl⟩

/-- Where the internal forms agree, whatever one plan makes of its classes the other makes of its
own, up to the spelling. -/
theorem applyOverrides_of_internal {plan other : PatchPlan} {classes others patched : List Class}
    {outcomes : List OverrideOutcome} (plans : plan.internal = other.internal)
    (loaded : classes.map Class.internal = others.map Class.internal)
    (success : plan.applyOverrides classes = .ok (outcomes, patched)) :
    ∃ respelled, other.applyOverrides others = .ok (outcomes, respelled) ∧
      respelled.map Class.internal = patched.map Class.internal := by
  have spelled := (plan.applyOverrides_internal_iff classes _ outcomes).mpr ⟨patched, success, rfl⟩
  rw [plans, loaded] at spelled
  exact (other.applyOverrides_internal_iff others _ outcomes).mp spelled

theorem refuses_of_internal {plan other : PatchPlan} {classes others : List Class}
    (plans : plan.internal = other.internal)
    (loaded : classes.map Class.internal = others.map Class.internal)
    (refused : ∃ failure, plan.applyOverrides classes = .error failure) :
    ∃ failure, other.applyOverrides others = .error failure := by
  cases result : other.applyOverrides others with
  | error failure => exact ⟨failure, rfl⟩
  | ok report =>
      obtain ⟨patched, success, _⟩ := applyOverrides_of_internal plans.symm loaded.symm result
      obtain ⟨failure, refused⟩ := refused
      rw [success] at refused
      cases refused

/-- The spelling of type names is no matter. Two plans with one internal form, on classes with one
internal form, locate the same anchors and miss the same; both or neither can make its overrides;
and the overrides report the same and leave classes that again differ in spelling only, each list
with the names spelled as they were. -/
theorem respelled_alike (plan other : PatchPlan) (classes others : List Class)
    (plans : plan.internal = other.internal)
    (loaded : classes.map Class.internal = others.map Class.internal) :
    plan.locateAnchors classes = other.locateAnchors others ∧
      ((∃ failure, plan.applyOverrides classes = .error failure) ↔
        ∃ failure, other.applyOverrides others = .error failure) ∧
      ∀ outcomes patched, plan.applyOverrides classes = .ok (outcomes, patched) →
        ∃ respelled, other.applyOverrides others = .ok (outcomes, respelled) ∧
          respelled.map Class.internal = patched.map Class.internal ∧
          patched.map Class.typeNames = classes.map Class.typeNames ∧
          respelled.map Class.typeNames = others.map Class.typeNames := by
  refine ⟨?_, ?_, ?_⟩
  · rw [← plan.locateAnchors_internal, plans, loaded, other.locateAnchors_internal]
  · exact ⟨refuses_of_internal plans loaded, refuses_of_internal plans.symm loaded.symm⟩
  · intro outcomes patched success
    obtain ⟨respelled, otherSuccess, alike⟩ := applyOverrides_of_internal plans loaded success
    exact ⟨respelled, otherSuccess, alike, typeNames_applyOverrides success,
      typeNames_applyOverrides otherSuccess⟩

/-- A plan and a class, and both again with other separators in every name. -/
theorem respelled_alike_mixed :
    let plan : PatchPlan := ⟨
      [⟨"draw", "app.ui.Hud", "render", none, .all, true,
        ⟨[], some { Criteria.methodCall "draw" with owner := some "app.ui.Hud" }⟩⟩],
      [⟨"app.ui.Hud", "draw", "()V"⟩]⟩
    let other : PatchPlan := ⟨
      [⟨"draw", "app/ui.Hud", "render", none, .all, true,
        ⟨[], some { Criteria.methodCall "draw" with owner := some "app.ui/Hud" }⟩⟩],
      [⟨"app/ui/Hud", "draw", "()V"⟩]⟩
    let calling (owner : String) (dispatch : Dispatch) : Method :=
      ⟨"render", "()V", .packagePrivate, [],
        [.encoding 0 (.invoke ⟨owner, "draw", "()V", dispatch, 0⟩)], [], []⟩
    let classes (access : Access) (owner : String) (dispatch : Dispatch) : List Class :=
      [⟨"app/ui/Hud", none, false,
        [⟨"draw", "()V", access, [], [], [], []⟩, calling owner dispatch], 0⟩]
    plan.internal = other.internal ∧
      (classes .onlyPrivate "app/ui/Hud" .special).map Class.internal =
        (classes .onlyPrivate "app.ui/Hud" .special).map Class.internal ∧
      other.locateAnchors (classes .onlyPrivate "app.ui/Hud" .special) =
        .ok ⟨[⟨"draw", "app/ui/Hud", "render", "()V", ⟨0, none, .methodCall⟩⟩], []⟩ ∧
      ∃ respelled, other.applyOverrides (classes .onlyPrivate "app.ui/Hud" .special) =
          .ok ([⟨⟨"app/ui/Hud", "draw", "()V"⟩, 1⟩], respelled) ∧
        respelled.map Class.internal =
          (classes Access.onlyPrivate.widened "app/ui/Hud" .virtual).map Class.internal ∧
        respelled.map Class.typeNames = [[[], ["app.ui/Hud"]]] := by
  intro plan other calling classes
  have plans : plan.internal = other.internal := by decide +kernel
  have loaded : (classes .onlyPrivate "app/ui/Hud" .special).map Class.internal =
      (classes .onlyPrivate "app.ui/Hud" .special).map Class.internal := by decide +kernel
  obtain ⟨located, _, overridden⟩ := plan.respelled_alike other _ _ plans loaded
  have success : plan.applyOverrides (classes .onlyPrivate "app/ui/Hud" .special) =
      .ok ([⟨⟨"app/ui/Hud", "draw", "()V"⟩, 1⟩],
        classes Access.onlyPrivate.widened "app/ui/Hud" .virtual) := by
    decide +kernel
  obtain ⟨respelled, otherSuccess, alike, _, kept⟩ := overridden _ _ success
  have names : (classes .onlyPrivate "app.ui/Hud" .special).map Class.typeNames =
      [[[], ["app.ui/Hud"]]] := by decide +kernel
  exact ⟨plans, loaded, located.symm.trans (by decide +kernel), respelled, otherSuccess, alike,
    kept.trans names⟩

end PatchPlan

end MethodPatch
