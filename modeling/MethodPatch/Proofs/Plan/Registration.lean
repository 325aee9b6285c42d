import MethodPatch.Proofs.Override.Application
import MethodPatch.Proofs.Override.Spelling
import MethodPatch.Proofs.Plan.Request
import Mathlib.Data.List.Nodup

set_option autoImplicit false

namespace MethodPatch

namespace OverrideRequest

/-- The requests are registered one after another. -/
theorem registerAll_cons_ok {request : OverrideRequest} {rest : List OverrideRequest}
    {session last : Session} {classes widened : List Class}
    (success : registerAll session classes (request :: rest) = .ok (last, widened)) :
    ∃ next, request.register session classes = .ok (next, request.widen classes) ∧
      registerAll next (request.widen classes) rest = .ok (last, widened) := by
  cases first : request.register session classes with
  | error failure =>
      simp only [registerAll, first] at success
      cases success
  | ok result =>
      obtain ⟨next, after⟩ := result
      obtain ⟨_, _, _, _, _, _, _, rfl⟩ := (request.register_eq_ok_iff _ next _ after).mp first
      simp only [registerAll, first] at success
      exact ⟨next, rfl, success⟩

/-- The methods that are asked for, in the order of the requests. -/
def targets (requests : List OverrideRequest) (classes : List Class) : List MethodKey :=
  requests.filterMap (·.target? classes)

theorem targets_cons {request : OverrideRequest} {key : MethodKey} {classes : List Class}
    (target : request.target? classes = some key) (rest : List OverrideRequest) :
    targets (request :: rest) classes = key :: targets rest classes :=
  List.filterMap_cons_some target

theorem targets_widen (requests : List OverrideRequest) (request : OverrideRequest)
    (classes : List Class) : targets requests (request.widen classes) = targets requests classes :=
  List.filterMap_congr fun other _ => other.target?_widen request classes

/-- Requests for other methods do not see that a request was carried out. -/
theorem isClear_widen_of_not_mem {request : OverrideRequest} {key : MethodKey}
    {classes : List Class} {rest : List OverrideRequest}
    (target : request.target? classes = some key) (apart : key ∉ targets rest classes) :
    ∀ other ∈ rest, other.isClear (request.widen classes) = other.isClear classes := by
  intro other member
  apply isClear_widen_of_ne
  intro same
  exact apart (List.mem_filterMap.mpr ⟨other, member, same.trans target⟩)

/-- The classes after all requests were carried out. -/
def widenAll (requests : List OverrideRequest) (classes : List Class) : List Class :=
  requests.foldl (fun widened request => request.widen widened) classes

/-- Requests succeed together where each is clear on the classes as they are at the start and no
target is asked for twice or was registered before. -/
theorem registerAll_eq_ok_iff (requests : List OverrideRequest) (session last : Session)
    (classes widened : List Class) :
    registerAll session classes requests = .ok (last, widened) ↔
      (∀ request ∈ requests, request.isClear classes = true) ∧
      (targets requests classes).Nodup ∧
      (∀ key ∈ targets requests classes, session.isRegistered key = false) ∧
      last = session.addingAll (targets requests classes) ∧
      widened = widenAll requests classes := by
  induction requests generalizing session last classes widened with
  | nil =>
      simp only [registerAll, targets, widenAll, Session.addingAll, Except.ok.injEq,
        Prod.mk.injEq, List.foldl_nil, List.filterMap_nil, List.not_mem_nil, List.nodup_nil,
        false_implies, implies_true, true_and]
      exact and_congr eq_comm eq_comm
  | cons request rest ih =>
      constructor
      · intro success
        obtain ⟨next, first, others⟩ := registerAll_cons_ok success
        obtain ⟨key, target, clear, fresh, rfl, _⟩ :=
          (request.register_eq_ok_iff_isClear _ _ _ _).mp first
        obtain ⟨clears, distinct, unused, rfl, rfl⟩ := (ih _ _ _ _).mp others
        rw [targets_widen] at distinct unused ⊢
        have apart : key ∉ targets rest classes := by
          intro repeated
          have taken := unused key repeated
          rw [Session.isRegistered_adding, beq_self_eq_true, Bool.or_true] at taken
          cases taken
        have same := isClear_widen_of_not_mem target apart
        rw [targets_cons target]
        refine ⟨List.forall_mem_cons.mpr ⟨clear, fun other member => ?_⟩,
          List.nodup_cons.mpr ⟨apart, distinct⟩,
          List.forall_mem_cons.mpr ⟨fresh, fun other member => ?_⟩, rfl, rfl⟩
        · exact same other member ▸ clears other member
        · have free := unused other member
          rw [Session.isRegistered_adding, Bool.or_eq_false_iff] at free
          exact free.1
      · rintro ⟨clears, distinct, unused, rfl, rfl⟩
        obtain ⟨clear, others⟩ := List.forall_mem_cons.mp clears
        obtain ⟨key, target⟩ := target?_of_isClear clear
        rw [targets_cons target] at distinct unused ⊢
        obtain ⟨apart, distinct⟩ := List.nodup_cons.mp distinct
        obtain ⟨fresh, unused⟩ := List.forall_mem_cons.mp unused
        have same := isClear_widen_of_not_mem target apart
        have first := (request.register_eq_ok_iff_isClear session _ classes _).mpr
          ⟨key, target, clear, fresh, rfl, rfl⟩
        simp only [registerAll, first]
        rw [ih, targets_widen]
        refine ⟨fun other member => (same other member).trans (others other member), distinct,
          fun other member => ?_, rfl, rfl⟩
        have free : key ≠ other := fun equal => apart (equal ▸ member)
        rw [Session.isRegistered_adding, unused other member, beq_eq_false_iff_ne.mpr free,
          Bool.or_false]

/-- Requests that are clear have a target each. -/
theorem map_some_targets {requests : List OverrideRequest} {classes : List Class}
    (clears : ∀ request ∈ requests, request.isClear classes = true) :
    (targets requests classes).map some = requests.map (·.target? classes) := by
  induction requests with
  | nil => rfl
  | cons request rest ih =>
      obtain ⟨clear, others⟩ := List.forall_mem_cons.mp clears
      obtain ⟨key, target⟩ := target?_of_isClear clear
      rw [targets_cons target, List.map_cons, List.map_cons, target, ih others]

/-- The rules are those of the targets, in the order of the requests. -/
theorem registerAll_targets {requests : List OverrideRequest} {session last : Session}
    {classes widened : List Class}
    (success : registerAll session classes requests = .ok (last, widened)) :
    last.rules.map (fun rule => some rule.target) =
      session.rules.map (fun rule => some rule.target) ++
        requests.map (fun request => request.target? classes) := by
  obtain ⟨clears, _, _, rfl, _⟩ := (registerAll_eq_ok_iff requests _ _ _ _).mp success
  rw [Session.rules_addingAll, List.map_append, List.map_map, ← map_some_targets clears]
  rfl

/-- No key is registered twice. -/
theorem registerAll_nodup {requests : List OverrideRequest} {session last : Session}
    {classes widened : List Class} (consistent : session.IsConsistent)
    (distinct : (session.rules.map (·.target)).Nodup)
    (success : registerAll session classes requests = .ok (last, widened)) :
    (last.rules.map (·.target)).Nodup := by
  obtain ⟨_, apart, unused, rfl, _⟩ := (registerAll_eq_ok_iff requests _ _ _ _).mp success
  have added : ((targets requests classes).map CallSiteRule.mk).map (·.target) =
      targets requests classes := by
    rw [List.map_map]
    exact List.map_id _
  rw [Session.rules_addingAll, List.map_append, added]
  refine List.nodup_append.mpr ⟨distinct, apart, ?_⟩
  rintro key member other asked rfl
  exact (consistent.isRegistered_eq_false_iff key).mp (unused key asked) member

/-- No request is registered whose target was registered before. -/
theorem registerAll_fresh {requests : List OverrideRequest} {session last : Session}
    {classes widened : List Class}
    (success : registerAll session classes requests = .ok (last, widened))
    {request : OverrideRequest} (member : request ∈ requests) :
    ∃ key, request.target? classes = some key ∧ session.isRegistered key = false := by
  obtain ⟨clears, _, unused, _, _⟩ := (registerAll_eq_ok_iff requests _ _ _ _).mp success
  obtain ⟨key, target⟩ := target?_of_isClear (clears request member)
  exact ⟨key, target, unused key (List.mem_filterMap.mpr ⟨request, member, target⟩)⟩

theorem widenAll_unflagged (requests : List OverrideRequest) (classes : List Class) :
    (widenAll requests classes).map Class.unflagged = classes.map Class.unflagged := by
  induction requests generalizing classes with
  | nil => rfl
  | cons request rest ih => exact (ih (request.widen classes)).trans (request.widen_unflagged classes)

/-- Registering changes no class but for access flags. -/
theorem registerAll_unflagged {requests : List OverrideRequest} {session last : Session}
    {classes widened : List Class}
    (success : registerAll session classes requests = .ok (last, widened)) :
    widened.map Class.unflagged = classes.map Class.unflagged := by
  obtain ⟨_, _, _, _, rfl⟩ := (registerAll_eq_ok_iff requests _ _ _ _).mp success
  exact widenAll_unflagged requests classes

/-- Targets with owners of one type lie in one class: the first of that type. -/
theorem owner_eq_of_same {first second : OverrideRequest} {classes : List Class}
    {key other : MethodKey} (firstTarget : first.target? classes = some key)
    (secondTarget : second.target? classes = some other)
    (same : TypeName.same key.owner other.owner = true) : key.owner = other.owner := by
  simp only [target?, Option.map_eq_some_iff] at firstTarget secondTarget
  obtain ⟨firstOwner, firstFound, rfl⟩ := firstTarget
  obtain ⟨secondOwner, secondFound, rfl⟩ := secondTarget
  have firstNamed := first.named_of_find? firstFound
  have secondNamed := second.named_of_find? secondFound
  have asked : first.isFor secondOwner = true :=
    (TypeName.same_congr_left same first.className).symm.trans firstNamed
  have searches : first.isFor = second.isFor := isFor_eq_of_isFor asked secondNamed
  rw [searches, secondFound, Option.some.injEq] at firstFound
  rw [firstFound]

/-- Rules of one session are of different methods, even up to the spelling of their owners. -/
theorem registerAll_apart {requests : List OverrideRequest} {last : Session}
    {classes widened : List Class}
    (success : registerAll .start classes requests = .ok (last, widened)) {rule other : CallSiteRule}
    (member : rule ∈ last.rules) (otherMember : other ∈ last.rules)
    (same : rule.target.isSpelling other.target = true) : rule = other := by
  have targets := registerAll_targets success
  have asked : ∀ rule ∈ last.rules, ∃ request ∈ requests,
      request.target? classes = some rule.target := by
    intro rule member
    have listed : some rule.target ∈ last.rules.map (fun rule => some rule.target) :=
      List.mem_map_of_mem member
    rw [targets] at listed
    simpa [Session.start] using listed
  obtain ⟨first, _, firstTarget⟩ := asked rule member
  obtain ⟨second, _, secondTarget⟩ := asked other otherMember
  obtain ⟨names, descriptors, owners⟩ := (MethodKey.isSpelling_iff _ _).mp same
  have owner := owner_eq_of_same firstTarget secondTarget owners
  obtain ⟨⟨ruleOwner, ruleName, ruleDescriptor⟩⟩ := rule
  obtain ⟨⟨otherOwner, otherName, otherDescriptor⟩⟩ := other
  change ruleOwner = otherOwner at owner
  change ruleName = otherName at names
  change ruleDescriptor = otherDescriptor at descriptors
  rw [owner, names, descriptors]

end OverrideRequest

namespace PatchPlan

/-- A run over the overrides of a plan registers, counts and applies, in this order. -/
theorem applyOverrides_ok {plan : PatchPlan} {classes patched : List Class}
    {outcomes : List OverrideOutcome}
    (success : plan.applyOverrides classes = .ok (outcomes, patched)) :
    ∃ session widened,
      OverrideRequest.registerAll .start classes plan.overrides = .ok (session, widened) ∧
      outcomes = (session.rules.map fun rule =>
        ⟨rule.target, rule.countCalls widened⟩).mergeSort OverrideOutcome.atMost ∧
      patched = session.applied widened := by
  unfold applyOverrides at success
  cases registered : OverrideRequest.registerAll .start classes plan.overrides with
  | error failure =>
      simp only [registered] at success
      cases success
  | ok result =>
      obtain ⟨session, widened⟩ := result
      simp only [registered, Except.ok.injEq, Prod.mk.injEq] at success
      exact ⟨session, widened, rfl, success.1.symm, success.2.symm⟩

/-- There is one outcome for each request: that of its target. -/
theorem applyOverrides_targets {plan : PatchPlan} {classes patched : List Class}
    {outcomes : List OverrideOutcome}
    (success : plan.applyOverrides classes = .ok (outcomes, patched)) :
    (outcomes.map fun outcome => some outcome.method).Perm
      (plan.overrides.map fun request => request.target? classes) := by
  obtain ⟨session, widened, registered, rfl, rfl⟩ := applyOverrides_ok success
  have asked := (List.mergeSort_perm (session.rules.map fun rule =>
    (⟨rule.target, rule.countCalls widened⟩ : OverrideOutcome)) OverrideOutcome.atMost).map
      fun outcome => some outcome.method
  rw [List.map_map] at asked
  exact asked.trans (List.Perm.of_eq (OverrideRequest.registerAll_targets registered))

end PatchPlan

end MethodPatch
