import MethodPatch.Proofs.Override.KeyOrder
import MethodPatch.Proofs.Plan.Registration
import Mathlib.Algebra.BigOperators.Group.List.Basic
import Mathlib.Algebra.GroupWithZero.Nat

set_option autoImplicit false

namespace MethodPatch

namespace Class

theorem changedCalls_unflagged (before after : Class) :
    before.unflagged.changedCalls after = before.changedCalls after := by
  simp only [changedCalls, unflagged, List.zip_map_left, List.flatMap_map]
  rfl

theorem extent_unflagged (owner : Class) : owner.unflagged.extent = owner.extent := by
  simp only [extent, unflagged, List.map_map]
  rfl

/-- Changes of access flags change no call. -/
theorem allChangedCalls_congr {before other : List Class} (after : List Class)
    (alike : before.map unflagged = other.map unflagged) :
    allChangedCalls before after = allChangedCalls other after := by
  have plain (classes : List Class) :
      allChangedCalls (classes.map unflagged) after = allChangedCalls classes after := by
    simp only [allChangedCalls, List.zip_map_left, List.flatMap_map, Prod.map, id_eq,
      changedCalls_unflagged]
  rw [← plain before, alike, plain]

theorem extent_congr {before other : List Class}
    (alike : before.map unflagged = other.map unflagged) :
    before.map extent = other.map extent := by
  have plain (classes : List Class) :
      (classes.map unflagged).map extent = classes.map extent := by
    rw [List.map_map]
    exact List.map_congr_left fun owner _ => owner.extent_unflagged
  rw [← plain before, alike, plain]

theorem separate_congr {before other : List Class}
    (alike : before.map unflagged = other.map unflagged)
    (separate : ∀ owner ∈ before, ∀ method ∈ owner.methods, method.HasSeparateCalls) :
    ∀ owner ∈ other, ∀ method ∈ owner.methods, method.HasSeparateCalls := by
  intro owner member method declared
  have listed : owner.unflagged ∈ before.map unflagged := alike ▸ List.mem_map_of_mem member
  obtain ⟨same, sameMember, equal⟩ := List.mem_map.mp listed
  have methods : same.unflagged.methods = owner.unflagged.methods := by rw [equal]
  have plainDeclared : ({ method with access := .packagePrivate } : Method) ∈
      same.unflagged.methods := methods ▸ List.mem_map_of_mem declared
  obtain ⟨twin, twinDeclared, twinEqual⟩ := List.mem_map.mp plainDeclared
  have twinSeparate := separate same sameMember twin twinDeclared
  simp only [Method.mk.injEq, true_and] at twinEqual
  obtain ⟨_, _, bytes, instructions, _⟩ := twinEqual
  simpa only [Method.HasSeparateCalls, bytes, instructions] using twinSeparate

end Class

/-- The number of pairs, counted from either side. -/
theorem sum_countP_comm {α β : Type} (related : α → β → Bool) (rows : List α) (columns : List β) :
    (rows.map fun row => columns.countP (related row)).sum =
      (columns.map fun column => rows.countP fun row => related row column).sum := by
  induction rows with
  | nil => simp
  | cons row rest ih =>
      simp only [List.map_cons, List.sum_cons, ih, List.countP_cons, List.sum_map_add]
      rw [Nat.add_comm, Nat.add_left_cancel_iff]
      clear ih
      induction columns with
      | nil => rfl
      | cons column columns ih =>
          rw [List.countP_cons, List.map_cons, List.sum_cons, ih, Nat.add_comm]

namespace Session

/-- Every method has at most one rule, even up to the spelling of its owner. -/
def IsApart (session : Session) : Prop :=
  ∀ rule ∈ session.rules, ∀ other ∈ session.rules,
    rule.target.isSpelling other.target = true → rule = other

/-- A rule selects, of all the calls that the session selects, those of its own method. -/
theorem selects_of_rule {session : Session} (apart : session.IsApart) {rule : CallSiteRule}
    (member : rule ∈ session.rules) (caller : String) (method : Method)
    (instruction : Instruction) :
    rule.selects caller method instruction = true ↔
      session.selects caller method.bytecode instruction = true ∧
        ∃ call, instruction.call? = some call ∧ call.key.isSpelling rule.target = true := by
  rw [selects_iff, appliesTo_iff, CallSiteRule.selects_iff]
  constructor
  · rintro ⟨call, calls, applies, holds⟩
    exact ⟨⟨⟨call, calls, rule, member, applies⟩, holds⟩, call, calls,
      ((rule.appliesTo_iff caller call).mp applies).2.1⟩
  · rintro ⟨⟨⟨call, calls, other, otherMember, applies⟩, holds⟩, same, sameCalls, spelled⟩
    rw [calls, Option.some.injEq] at sameCalls
    subst sameCalls
    have otherSpelled := ((other.appliesTo_iff caller call).mp applies).2.1
    rw [MethodKey.isSpelling_comm] at spelled
    have equal := apart rule member other otherMember
      (MethodKey.isSpelling_trans spelled otherSpelled)
    exact ⟨call, calls, equal ▸ applies, holds⟩

theorem length_filter_selects {session : Session} (apart : session.IsApart) {rule : CallSiteRule}
    (member : rule ∈ session.rules) (caller : String) (method : Method) :
    (method.instructions.filter (rule.selects caller method)).length =
      (session.selectedCalls caller method.bytecode method.instructions).countP fun call =>
        call.key.isSpelling rule.target := by
  rw [selectedCalls, List.countP_filterMap, List.countP_filter, ← List.countP_eq_length_filter]
  apply List.countP_congr
  intro instruction _
  rw [selects_of_rule apart member, Bool.and_eq_true, and_comm]
  cases instruction.call? <;> simp

/-- The number reported for a rule is that of the selected calls of its method. -/
theorem countCalls_eq {session : Session} (apart : session.IsApart) {rule : CallSiteRule}
    (member : rule ∈ session.rules) (classes : List Class) :
    rule.countCalls classes =
      (classes.flatMap session.selectedIn).countP fun call =>
        call.key.isSpelling rule.target := by
  rw [CallSiteRule.countCalls, List.length_flatMap, List.countP_flatMap]
  congr 1
  apply List.map_congr_left
  intro owner _
  rw [Function.comp_apply, selectedIn, List.length_flatMap, List.countP_flatMap]
  congr 1
  apply List.map_congr_left
  intro method _
  exact length_filter_selects apart member owner.name method

/-- A call that the session selects is of the method of exactly one rule. -/
theorem countP_rules_of_selected {session : Session} (apart : session.IsApart)
    (distinct : session.rules.Nodup) {classes : List Class} {call : CallSite}
    (selected : call ∈ classes.flatMap session.selectedIn) :
    (session.rules.countP fun rule => call.key.isSpelling rule.target) = 1 := by
  simp only [selectedIn, selectedCalls, List.mem_flatMap, List.mem_filterMap,
    List.mem_filter] at selected
  obtain ⟨owner, _, method, _, instruction, ⟨_, chosen⟩, calls⟩ := selected
  obtain ⟨applies, _⟩ := (session.selects_iff _ _ _).mp chosen
  obtain ⟨same, sameCalls, rule, member, ruled⟩ := (session.appliesTo_iff _ _).mp applies
  rw [calls, Option.some.injEq] at sameCalls
  subst sameCalls
  have spelled := ((rule.appliesTo_iff _ call).mp ruled).2.1
  rw [← List.count_eq_one_of_mem distinct member, List.count]
  apply List.countP_congr
  intro other otherMember
  rw [beq_iff_eq]
  constructor
  · intro otherSpelled
    rw [MethodKey.isSpelling_comm] at otherSpelled
    exact apart other otherMember rule member (MethodKey.isSpelling_trans otherSpelled spelled)
  · rintro rfl
    exact spelled

/-- Rule by rule, every call that the session selects is counted once. -/
theorem sum_countCalls {session : Session} (apart : session.IsApart)
    (distinct : session.rules.Nodup) (classes : List Class) :
    (session.rules.map fun rule => rule.countCalls classes).sum =
      (classes.flatMap session.selectedIn).length := by
  have counts : session.rules.map (fun rule => rule.countCalls classes) =
      session.rules.map fun rule => (classes.flatMap session.selectedIn).countP fun call =>
        call.key.isSpelling rule.target :=
    List.map_congr_left fun rule member => countCalls_eq apart member classes
  have ones : ((classes.flatMap session.selectedIn).map fun call =>
      session.rules.countP fun rule => call.key.isSpelling rule.target) =
        (classes.flatMap session.selectedIn).map fun _ => 1 :=
    List.map_congr_left fun call selected => countP_rules_of_selected apart distinct selected
  rw [counts, sum_countP_comm, ones, List.map_const', List.sum_replicate_nat, Nat.mul_one]

end Session

namespace PatchPlan

theorem pairwise_sorted (outcomes : List OverrideOutcome)
    (distinct : (outcomes.map (·.method)).Nodup) :
    (outcomes.mergeSort OverrideOutcome.atMost).Pairwise fun first second =>
      first.method.atMost second.method = true ∧ first.method ≠ second.method := by
  have total : ∀ first second : OverrideOutcome,
      (first.atMost second || second.atMost first) = true := by
    intro first second
    exact Bool.or_eq_true_iff.mpr (first.method.atMost_total second.method)
  have chained : ∀ first second third : OverrideOutcome, first.atMost second = true →
      second.atMost third = true → first.atMost third = true := by
    intro first second third lower upper
    exact MethodKey.atMost_trans lower upper
  have ordered := List.pairwise_mergeSort chained total outcomes
  have kept := ((List.mergeSort_perm outcomes OverrideOutcome.atMost).map (·.method)).nodup_iff
  exact ordered.and (List.pairwise_map.mp (kept.mpr distinct))

/-- What the steps of a run come down to: the rules are apart, and the classes before the rules were
applied have the calls that they had from the start. -/
theorem applyOverrides_apart {plan : PatchPlan} {classes patched : List Class}
    {outcomes : List OverrideOutcome}
    (success : plan.applyOverrides classes = .ok (outcomes, patched)) :
    ∃ (session : Session) (widened : List Class),
      session.IsApart ∧ (session.rules.map (·.target)).Nodup ∧
      widened.map Class.unflagged = classes.map Class.unflagged ∧
      outcomes = (session.rules.map fun rule =>
        ⟨rule.target, rule.countCalls widened⟩).mergeSort OverrideOutcome.atMost ∧
      patched = session.applied widened := by
  obtain ⟨session, widened, registered, sorted, applied⟩ := applyOverrides_ok success
  have unused : (Session.start.rules.map (·.target)).Nodup := List.nodup_nil
  have distinct := OverrideRequest.registerAll_nodup Session.isConsistent_start unused registered
  have apart : session.IsApart := by
    intro rule member other otherMember same
    exact OverrideRequest.registerAll_apart registered member otherMember same
  exact ⟨session, widened, apart, distinct, OverrideRequest.registerAll_unflagged registered,
    sorted, applied⟩

theorem mem_sorted_iff {session : Session} {widened : List Class} {outcome : OverrideOutcome} :
    outcome ∈ (session.rules.map fun rule =>
      (⟨rule.target, rule.countCalls widened⟩ : OverrideOutcome)).mergeSort
        OverrideOutcome.atMost ↔
      ∃ rule ∈ session.rules, ⟨rule.target, rule.countCalls widened⟩ = outcome := by
  rw [List.mem_mergeSort, List.mem_map]

theorem ascending_applyOverrides {plan : PatchPlan} {classes patched : List Class}
    {outcomes : List OverrideOutcome}
    (success : plan.applyOverrides classes = .ok (outcomes, patched)) :
    outcomes.Pairwise fun first second =>
      first.method.atMost second.method = true ∧ first.method ≠ second.method := by
  obtain ⟨session, widened, _, distinct, _, rfl, _⟩ := applyOverrides_apart success
  apply pairwise_sorted
  rw [List.map_map]
  exact distinct

/-- No call is of the methods of two outcomes. -/
theorem separate_applyOverrides {plan : PatchPlan} {classes patched : List Class}
    {outcomes : List OverrideOutcome}
    (success : plan.applyOverrides classes = .ok (outcomes, patched)) :
    outcomes.Pairwise fun first second => ∀ call : CallSite,
      ¬ (call.key.isSpelling first.method = true ∧ call.key.isSpelling second.method = true) := by
  have ascending := ascending_applyOverrides success
  obtain ⟨session, widened, apart, _, _, rfl, _⟩ := applyOverrides_apart success
  refine ascending.imp_of_mem ?_
  rintro first second member otherMember ⟨_, different⟩ call ⟨spelled, otherSpelled⟩
  obtain ⟨rule, ruleMember, rfl⟩ := mem_sorted_iff.mp member
  obtain ⟨other, otherRuleMember, rfl⟩ := mem_sorted_iff.mp otherMember
  rw [MethodKey.isSpelling_comm] at spelled
  have equal := apart rule ruleMember other otherRuleMember
    (MethodKey.isSpelling_trans spelled otherSpelled)
  exact different (congrArg CallSiteRule.target equal)

theorem extent_applyOverrides {plan : PatchPlan} {classes patched : List Class}
    {outcomes : List OverrideOutcome}
    (success : plan.applyOverrides classes = .ok (outcomes, patched)) :
    patched.map Class.extent = classes.map Class.extent := by
  obtain ⟨session, widened, _, _, alike, _, rfl⟩ := applyOverrides_apart success
  rw [Session.applied, List.map_map, ← Class.extent_congr alike]
  exact List.map_congr_left fun owner _ => session.extent_apply owner

/-- The outcomes count the selected calls, each once. What changes was selected, and all that was
selected changes where calls stand apart. -/
theorem callSites_applyOverrides {plan : PatchPlan} {classes patched : List Class}
    {outcomes : List OverrideOutcome}
    (success : plan.applyOverrides classes = .ok (outcomes, patched)) :
    ∃ selected : List CallSite,
      (∀ outcome ∈ outcomes, outcome.callSites =
        selected.countP fun call => call.key.isSpelling outcome.method) ∧
      (outcomes.map (·.callSites)).sum = selected.length ∧
      (Class.allChangedCalls classes patched).Sublist selected ∧
      ((∀ owner ∈ classes, ∀ method ∈ owner.methods, method.HasSeparateCalls) →
        Class.allChangedCalls classes patched = selected) := by
  obtain ⟨session, widened, apart, distinct, alike, rfl, rfl⟩ := applyOverrides_apart success
  have changed := Class.allChangedCalls_congr (session.applied widened) alike.symm
  rw [changed]
  refine ⟨widened.flatMap session.selectedIn, ?_, ?_,
    session.allChangedCalls_applied_sublist widened, ?_⟩
  · intro outcome member
    obtain ⟨rule, ruleMember, rfl⟩ := mem_sorted_iff.mp member
    exact Session.countCalls_eq apart ruleMember widened
  · have perm := List.mergeSort_perm (session.rules.map fun rule =>
      (⟨rule.target, rule.countCalls widened⟩ : OverrideOutcome)) OverrideOutcome.atMost
    have total := (perm.map (·.callSites)).sum_nat
    rw [List.map_map] at total
    exact total.trans (Session.sum_countCalls apart (List.Nodup.of_map _ distinct) widened)
  · intro separate
    exact session.allChangedCalls_applied widened (Class.separate_congr alike.symm separate)

/-- The report of a plan's overrides is in order of the methods, has one outcome for each request,
and gives each method the calls of its own that changed. The bound on the sum needs no condition;
the equations need that no two calls of a known raw body share an offset. -/
theorem applyOverrides_report (plan : PatchPlan) (classes patched : List Class)
    (outcomes : List OverrideOutcome)
    (success : plan.applyOverrides classes = .ok (outcomes, patched)) :
    (outcomes.Pairwise fun first second =>
      first.method.atMost second.method = true ∧ first.method ≠ second.method) ∧
    (outcomes.map fun outcome => some outcome.method).Perm
      (plan.overrides.map fun request => request.target? classes) ∧
    (outcomes.Pairwise fun first second => ∀ call : CallSite,
      ¬ (call.key.isSpelling first.method = true ∧ call.key.isSpelling second.method = true)) ∧
    patched.map Class.extent = classes.map Class.extent ∧
    (Class.allChangedCalls classes patched).length ≤ (outcomes.map (·.callSites)).sum ∧
    ((∀ owner ∈ classes, ∀ method ∈ owner.methods, method.HasSeparateCalls) →
      (∀ outcome ∈ outcomes, outcome.callSites =
        (Class.allChangedCalls classes patched).countP fun call =>
          call.key.isSpelling outcome.method) ∧
      (outcomes.map (·.callSites)).sum = (Class.allChangedCalls classes patched).length) := by
  obtain ⟨selected, counts, total, changed, all⟩ := callSites_applyOverrides success
  refine ⟨ascending_applyOverrides success, applyOverrides_targets success,
    separate_applyOverrides success, extent_applyOverrides success, ?_, ?_⟩
  · rw [total]
    exact changed.length_le
  · intro separate
    rw [all separate]
    exact ⟨counts, total⟩

/-- Two classes of one shape, opened in the order of the plan and reported in that of the keys. -/
theorem applyOverrides_report_two_classes :
    let plan : PatchPlan := ⟨[], [⟨"app.Menu", "draw", "()V"⟩, ⟨"app.Hud", "draw", "()V"⟩]⟩
    let classes := ["app/Hud", "app/Menu"].map fun name =>
      Class.drawing name .onlyPrivate .special
    let patched := ["app/Hud", "app/Menu"].map fun name =>
      Class.drawing name Access.onlyPrivate.widened .virtual
    let hud : OverrideOutcome := ⟨⟨"app/Hud", "draw", "()V"⟩, 1⟩
    let menu : OverrideOutcome := ⟨⟨"app/Menu", "draw", "()V"⟩, 1⟩
    plan.applyOverrides classes = .ok ([hud, menu], patched) ∧
      (∀ owner ∈ classes, ∀ method ∈ owner.methods, method.HasSeparateCalls) ∧
      2 = (Class.allChangedCalls classes patched).length := by
  intro plan classes patched hud menu
  let session : Session := .addingAll .start [menu.method, hud.method]
  let widened := ["app/Hud", "app/Menu"].map fun name =>
    Class.drawing name Access.onlyPrivate.widened .special
  have registered : OverrideRequest.registerAll .start classes plan.overrides =
      .ok (session, widened) := by decide +kernel
  have counted : (session.rules.map fun rule =>
      (⟨rule.target, rule.countCalls widened⟩ : OverrideOutcome)) = [menu, hud] := by
    decide +kernel
  have changed : (widened.map fun owner => (session.apply owner).1) = patched := by decide +kernel
  have later : menu.atMost hud = false := by decide +kernel
  have sorted : [menu, hud].mergeSort OverrideOutcome.atMost = [hud, menu] := by
    simp [List.mergeSort, List.MergeSort.Internal.splitInTwo, later]
  have success : plan.applyOverrides classes = .ok ([hud, menu], patched) := by
    rw [applyOverrides, registered]
    simp only [counted, changed, sorted]
  have separate : ∀ owner ∈ classes, ∀ method ∈ owner.methods, method.HasSeparateCalls := by
    decide +kernel
  obtain ⟨_, _, _, _, _, equations⟩ :=
    plan.applyOverrides_report classes patched [hud, menu] success
  exact ⟨success, separate, (equations separate).2⟩

end PatchPlan

end MethodPatch
