import MethodPatch.Proofs.Override.KeyOrder
import MethodPatch.Proofs.Plan.OverrideReport
import Mathlib.Data.List.Perm.Basic

set_option autoImplicit false

namespace MethodPatch

/-- Methods of one class may be widened in either order. -/
theorem Class.modifyMethod_widened_comm (owner : Class)
    (name descriptor other otherDescriptor : String) :
    (owner.modifyMethod other otherDescriptor Method.widened).modifyMethod name descriptor
        Method.widened =
      (owner.modifyMethod name descriptor Method.widened).modifyMethod other otherDescriptor
        Method.widened := by
  by_cases same : name = other ∧ descriptor = otherDescriptor
  · rw [same.1, same.2]
  · have otherwise (method : Method) (named : method.isNamed name descriptor = true) :
        method.isNamed other otherDescriptor = false :=
      Method.not_isNamed_of_isNamed same named
    have methods := FirstMatch.modify_comm_of_apart
      (fun method : Method => method.isNamed name descriptor)
      (fun method : Method => method.isNamed other otherDescriptor)
      Method.widened Method.widened owner.methods
      (fun method named => ⟨named, otherwise method named, otherwise method named⟩)
      (fun method named =>
        Method.not_isNamed_of_isNamed (fun equal => same ⟨equal.1.symm, equal.2.symm⟩) named)
    simp only [Class.modifyMethod, methods]

namespace OverrideRequest

theorem widenIn_comm (request other : OverrideRequest) (owner : Class) :
    request.widenIn (other.widenIn owner) = other.widenIn (request.widenIn owner) :=
  owner.modifyMethod_widened_comm _ _ _ _

/-- Two requests for one class widen in it one after the other. -/
theorem widen_widen {request other : OverrideRequest} (searches : request.isFor = other.isFor)
    (classes : List Class) :
    request.widen (other.widen classes) =
      FirstMatch.modify request.isFor (fun owner => request.widenIn (other.widenIn owner))
        classes := by
  rw [widen, widen, ← searches]
  exact FirstMatch.modify_modify request.isFor request.widenIn other.widenIn classes
    fun _ asked => asked

/-- Requests may widen in either order. -/
theorem widen_comm (request other : OverrideRequest) (classes : List Class) :
    request.widen (other.widen classes) = other.widen (request.widen classes) := by
  cases same : TypeName.same request.className other.className with
  | true =>
      have searches := isFor_congr same
      rw [widen_widen searches, widen_widen searches.symm, searches]
      simp only [request.widenIn_comm other]
  | false =>
      have different : TypeName.same other.className request.className = false := by
        rw [TypeName.same_comm, same]
      exact FirstMatch.modify_comm_of_apart request.isFor other.isFor request.widenIn
        other.widenIn classes
        (fun _ asked => ⟨asked, isFor_apart same asked, isFor_apart same asked⟩)
        (fun _ asked => isFor_apart different asked)

theorem widenAll_perm {requests others : List OverrideRequest} (permuted : requests.Perm others)
    (classes : List Class) : widenAll requests classes = widenAll others classes :=
  permuted.foldl_eq' (fun request _ other _ widened => other.widen_comm request widened) classes

end OverrideRequest

namespace PatchPlan

/-- The outcome for a method, with its calls in the classes counted. -/
def outcome (classes : List Class) (key : MethodKey) : OverrideOutcome :=
  ⟨key, CallSiteRule.countCalls ⟨key⟩ classes⟩

/-- The outcomes of these methods, sorted. -/
def report (keys : List MethodKey) (classes : List Class) : List OverrideOutcome :=
  (keys.map (outcome classes)).mergeSort OverrideOutcome.atMost

theorem pairwise_report {keys : List MethodKey} (distinct : keys.Nodup) (classes : List Class) :
    (report keys classes).Pairwise fun first second =>
      first.method.atMost second.method = true ∧ first.method ≠ second.method := by
  apply pairwise_sorted
  have methods : (keys.map (outcome classes)).map (·.method) = keys := by
    rw [List.map_map]
    exact List.map_id keys
  rw [methods]
  exact distinct

theorem report_perm {keys others : List MethodKey} (permuted : keys.Perm others)
    (distinct : keys.Nodup) (classes : List Class) :
    report keys classes = report others classes := by
  have reports : (report keys classes).Perm (report others classes) :=
    (List.mergeSort_perm _ _).trans
      ((permuted.map (outcome classes)).trans (List.mergeSort_perm _ _).symm)
  refine reports.eq_of_pairwise ?_ (pairwise_report distinct classes)
    (pairwise_report (permuted.nodup_iff.mp distinct) classes)
  -- Two outcomes cannot stand in both orders.
  rintro first second _ _ ⟨lower, different⟩ ⟨upper, _⟩
  exact absurd (MethodKey.atMost_antisymm lower upper) different

/-- A run over the overrides of a plan is told by the targets and the widened classes. -/
theorem applyOverrides_eq_ok_iff (plan : PatchPlan) (classes patched : List Class)
    (outcomes : List OverrideOutcome) :
    plan.applyOverrides classes = .ok (outcomes, patched) ↔
      (∀ request ∈ plan.overrides, request.isClear classes = true) ∧
      (OverrideRequest.targets plan.overrides classes).Nodup ∧
      outcomes = report (OverrideRequest.targets plan.overrides classes)
        (OverrideRequest.widenAll plan.overrides classes) ∧
      patched = (Session.start.addingAll (OverrideRequest.targets plan.overrides classes)).applied
        (OverrideRequest.widenAll plan.overrides classes) := by
  have registers (session : Session) (widened : List Class) :=
    OverrideRequest.registerAll_eq_ok_iff plan.overrides .start session classes widened
  have reported (keys : List MethodKey) (widened : List Class) :
      (Session.start.addingAll keys).rules.map (fun rule =>
        (⟨rule.target, rule.countCalls widened⟩ : OverrideOutcome)) =
      keys.map (outcome widened) := by
    rw [Session.rules_addingAll]
    exact List.map_map
  constructor
  · intro success
    obtain ⟨session, widened, registered, rfl, rfl⟩ := applyOverrides_ok success
    obtain ⟨clears, distinct, _, rfl, rfl⟩ := (registers session widened).mp registered
    exact ⟨clears, distinct, congrArg (List.mergeSort · _) (reported _ _), rfl⟩
  · rintro ⟨clears, distinct, rfl, rfl⟩
    have registered := (registers _ _).mpr ⟨clears, distinct, fun _ _ => rfl, rfl, rfl⟩
    rw [applyOverrides, registered, report, ← reported]
    rfl

/-- The order of the requests of a plan is no matter: in another order they succeed on the same
classes, report the same and leave the same classes. -/
theorem applyOverrides_perm (plan other : PatchPlan) (classes patched : List Class)
    (outcomes : List OverrideOutcome) (permuted : plan.overrides.Perm other.overrides) :
    plan.applyOverrides classes = .ok (outcomes, patched) ↔
      other.applyOverrides classes = .ok (outcomes, patched) := by
  have keys : (OverrideRequest.targets plan.overrides classes).Perm
      (OverrideRequest.targets other.overrides classes) := permuted.filterMap _
  have clears : (∀ request ∈ plan.overrides, request.isClear classes = true) ↔
      ∀ request ∈ other.overrides, request.isClear classes = true :=
    forall_congr' fun request => imp_congr_left permuted.mem_iff
  have rules : ∀ rule,
      rule ∈ (Session.start.addingAll (OverrideRequest.targets plan.overrides classes)).rules ↔
        rule ∈ (Session.start.addingAll (OverrideRequest.targets other.overrides classes)).rules := by
    intro rule
    rw [Session.rules_addingAll, Session.rules_addingAll]
    exact (keys.map CallSiteRule.mk).mem_iff
  have applied := Session.applied_congr rules
  rw [applyOverrides_eq_ok_iff, applyOverrides_eq_ok_iff, clears, keys.nodup_iff,
    OverrideRequest.widenAll_perm permuted classes, applied]
  apply and_congr_right
  intro _
  apply and_congr_right
  intro distinct
  rw [report_perm keys (keys.nodup_iff.mpr distinct)]

/-- Two requests in both orders: the report names the methods in the order of their keys. -/
theorem applyOverrides_perm_two_classes :
    let menu : OverrideRequest := ⟨"app.Menu", "draw", "()V"⟩
    let hud : OverrideRequest := ⟨"app.Hud", "draw", "()V"⟩
    let classes := ["app/Hud", "app/Menu"].map fun name =>
      Class.drawing name .onlyPrivate .special
    let patched := ["app/Hud", "app/Menu"].map fun name =>
      Class.drawing name Access.onlyPrivate.widened .virtual
    let outcomes : List OverrideOutcome :=
      [⟨⟨"app/Hud", "draw", "()V"⟩, 1⟩, ⟨⟨"app/Menu", "draw", "()V"⟩, 1⟩]
    [hud, menu].Perm [menu, hud] ∧
      PatchPlan.applyOverrides ⟨[], [hud, menu]⟩ classes = .ok (outcomes, patched) ∧
      PatchPlan.applyOverrides ⟨[], [menu, hud]⟩ classes = .ok (outcomes, patched) := by
  intro menu hud classes patched outcomes
  have permuted : [hud, menu].Perm [menu, hud] := .swap menu hud []
  have sorted : report (OverrideRequest.targets [hud, menu] classes)
      (OverrideRequest.widenAll [hud, menu] classes) = outcomes :=
    (List.mergeSort_of_pairwise (by decide +kernel)).trans (by decide +kernel)
  have success : PatchPlan.applyOverrides ⟨[], [hud, menu]⟩ classes = .ok (outcomes, patched) :=
    (applyOverrides_eq_ok_iff _ _ _ _).mpr
      ⟨by decide +kernel, by decide +kernel, sorted.symm, by decide +kernel⟩
  exact ⟨permuted, success,
    (applyOverrides_perm ⟨[], [hud, menu]⟩ ⟨[], [menu, hud]⟩ classes patched outcomes permuted).mp
      success⟩

end PatchPlan

end MethodPatch
