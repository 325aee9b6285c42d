import MethodPatch.Proofs.Expression.Plain
import MethodPatch.Proofs.Plan.AnchorTranslation
import MethodPatch.Proofs.Plan.Registration

set_option autoImplicit false

namespace MethodPatch

/-- A compiled sequence does not tell visits from their plain forms. -/
theorem SequenceSpec.mirrors_plain {spec : SequenceSpec} {sequence : MatchSequence}
    (compiled : spec.compile = .ok sequence) : sequence.Mirrors sequence Visit.plain id :=
  MatchSequence.mirrors_of_criteria (matcherAt_of_compile compiled) Criteria.accepts_plain
    fun _ => rfl

namespace AnchorRequest

/-- Nothing that a request asks about is left out of plain methods. -/
theorem isKeptBy_plain : IsKeptBy (fun request => request) Method.plain := by
  refine ⟨fun _ => rfl, fun _ => rfl, fun _ _ => rfl, fun _ _ => rfl, fun _ => rfl, fun _ => rfl,
    fun _ _ refused => refused, ?_⟩
  intro request sequence compiled
  refine ⟨sequence, compiled, fun owner method => ?_⟩
  have mirrors := SequenceSpec.mirrors_plain ((request.compile_eq_ok_iff sequence).mp compiled)
  have moved := request.anchorsIn_moved request rfl mirrors (method.visits_plain owner)
  exact moved.trans (List.map_id _)

theorem locateAll_plain (classes : List Class) (requests : List AnchorRequest) :
    locateAll (classes.map Class.plain) requests = locateAll classes requests := by
  have kept := isKeptBy_plain.locateAll requests classes
  rw [List.map_id'] at kept
  exact kept

end AnchorRequest

/-- Classes that differ in nothing a walk looks at have the same anchors. -/
theorem PatchPlan.locateAnchors_congr (plan : PatchPlan) {before after : List Class}
    (alike : after.map Class.plain = before.map Class.plain) :
    plan.locateAnchors after = plan.locateAnchors before := by
  have located := AnchorRequest.locateAll_plain after plan.anchors
  rw [alike, AnchorRequest.locateAll_plain] at located
  exact located.symm

theorem Class.plain_unflagged (owner : Class) : owner.unflagged.plain = owner.plain := by
  simp only [plain, unflagged, List.map_map]
  rfl

theorem Instruction.plain_madeVirtual (instruction : Instruction) :
    instruction.madeVirtual.plain = instruction.plain := by
  obtain ⟨offset, opcode, operation⟩ := instruction
  cases operation <;> rfl

namespace Session

theorem plain_apply (session : Session) (owner : Class) :
    (session.apply owner).1.plain = owner.plain := by
  simp only [Class.plain, apply_methods, List.map_map]
  congr 1
  apply List.map_congr_left
  intro method _
  simp only [Function.comp_apply, Method.plain, applyToMethod,
    map_patchBody _ Instruction.plain_madeVirtual]

theorem plain_applied (session : Session) (classes : List Class) :
    (session.applied classes).map Class.plain = classes.map Class.plain := by
  rw [applied, List.map_map]
  exact List.map_congr_left fun owner _ => session.plain_apply owner

end Session

namespace PatchPlan

/-- The overrides of a plan keep everything that a walk looks at. -/
theorem plain_of_applyOverrides {plan : PatchPlan} {classes patched : List Class}
    {outcomes : List OverrideOutcome}
    (success : plan.applyOverrides classes = .ok (outcomes, patched)) :
    patched.map Class.plain = classes.map Class.plain := by
  obtain ⟨session, widened, registered, _, rfl⟩ := applyOverrides_ok success
  have flags := congrArg (List.map Class.plain) (OverrideRequest.registerAll_unflagged registered)
  simp only [List.map_map, Function.comp_def, Class.plain_unflagged] at flags
  rw [session.plain_applied widened]
  exact flags

/-- A plan locates the same anchors, and misses the same, whether it looks before or after its
overrides. -/
theorem locateAnchors_applyOverrides (plan : PatchPlan) (classes patched : List Class)
    (outcomes : List OverrideOutcome)
    (success : plan.applyOverrides classes = .ok (outcomes, patched)) :
    plan.locateAnchors patched = plan.locateAnchors classes :=
  plan.locateAnchors_congr (plain_of_applyOverrides success)

/-- A call that an override changes is an anchor as it was, and a cast is missing as it was. -/
theorem locateAnchors_applyOverrides_drawing :
    let plan : PatchPlan := ⟨
      [⟨"draw", "app.Hud", "render", none, .all, true, ⟨[], some (.methodCall "draw")⟩⟩,
        ⟨"cast", "app.Hud", "render", none, .first, true, ⟨[], some (.ofKind .typeCast)⟩⟩],
      [⟨"app.Hud", "draw", "()V"⟩]⟩
    let classes := [Class.drawing "app/Hud" .onlyPrivate .special]
    let patched := [Class.drawing "app/Hud" Access.onlyPrivate.widened .virtual]
    plan.applyOverrides classes = .ok ([⟨⟨"app/Hud", "draw", "()V"⟩, 1⟩], patched) ∧
      plan.locateAnchors patched =
        .ok ⟨[⟨"draw", "app/Hud", "render", "()V", ⟨0, none, .methodCall⟩⟩], ["cast"]⟩ := by
  intro plan classes patched
  have success : plan.applyOverrides classes =
      .ok ([⟨⟨"app/Hud", "draw", "()V"⟩, 1⟩], patched) := by decide +kernel
  have located : plan.locateAnchors classes =
      .ok ⟨[⟨"draw", "app/Hud", "render", "()V", ⟨0, none, .methodCall⟩⟩], ["cast"]⟩ := by
    decide +kernel
  have same := plan.locateAnchors_applyOverrides classes patched _ success
  exact ⟨success, same.trans located⟩

end PatchPlan

end MethodPatch
