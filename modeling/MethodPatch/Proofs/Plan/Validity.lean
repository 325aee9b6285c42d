import MethodPatch.Plan.Load
import MethodPatch.Proofs.Plan.AnchorTranslation

set_option autoImplicit false

namespace MethodPatch

namespace AnchorRequest

/-- The requests pass the check exactly when their ids are new and distinct and all compile. -/
theorem validate_eq_ok_iff (seen : List String) (requests : List AnchorRequest) :
    validate seen requests = .ok () ↔
      (∀ request ∈ requests, request.id ∉ seen) ∧ (requests.map (·.id)).Nodup ∧
        ∀ request ∈ requests, ∃ sequence, request.compile = .ok sequence := by
  induction requests generalizing seen with
  | nil => simp [validate]
  | cons request rest ih =>
      rw [validate]
      by_cases repeated : request.id ∈ seen
      · rw [if_pos repeated]
        constructor
        · intro passed
          cases passed
        · rintro ⟨fresh, _, _⟩
          exact absurd repeated (fresh request List.mem_cons_self)
      · rw [if_neg repeated]
        cases compiled : request.compile with
        | error fault => simp [compiled]
        | ok sequence =>
            simp only [ih, List.forall_mem_cons, List.map_cons, List.nodup_cons]
            constructor
            · rintro ⟨fresh, distinct, compiles⟩
              refine ⟨⟨repeated, fun other member => ?_⟩, ⟨fun again => ?_, distinct⟩,
                ⟨sequence, compiled⟩, compiles⟩
              · exact fun seenBefore => fresh other member (List.mem_cons_of_mem _ seenBefore)
              · obtain ⟨other, member, same⟩ := List.mem_map.mp again
                exact fresh other member (same ▸ List.mem_cons_self)
            · rintro ⟨⟨_, fresh⟩, ⟨apart, distinct⟩, _, compiles⟩
              refine ⟨fun other member seenBefore => ?_, distinct, compiles⟩
              rcases List.mem_cons.mp seenBefore with same | earlier
              · exact apart (List.mem_map.mpr ⟨other, member, same⟩)
              · exact fresh other member earlier

end AnchorRequest

namespace PatchPlan

structure IsValid (plan : PatchPlan) : Prop where
  distinct : (plan.anchors.map (·.id)).Nodup
  compiles : ∀ request ∈ plan.anchors, ∃ sequence, request.compile = .ok sequence

theorem validate_eq_ok_iff (plan : PatchPlan) : plan.validate = .ok () ↔ plan.IsValid := by
  rw [validate, AnchorRequest.validate_eq_ok_iff]
  constructor
  · rintro ⟨_, distinct, compiles⟩
    exact ⟨distinct, compiles⟩
  · rintro ⟨distinct, compiles⟩
    exact ⟨fun _ _ => List.not_mem_nil, distinct, compiles⟩

theorem isValid_of_load {files : FileSystem} {path : String} {plan : PatchPlan}
    (loaded : PatchPlan.load files path = .ok plan) : plan.IsValid := by
  rw [load] at loaded
  split at loaded
  · cases loaded
  · split at loaded
    · cases loaded
    · split at loaded
      · cases loaded
      · rename_i valid
        cases loaded
        exact (validate_eq_ok_iff plan).mp valid

/-- A request may ask for other anchors, as long as it keeps its id and its sequence. -/
theorem IsValid.replace {plan : PatchPlan} (valid : plan.IsValid) {front back : List AnchorRequest}
    {request other : AnchorRequest} (anchors : plan.anchors = front ++ request :: back)
    (id : other.id = request.id) (sequence : other.sequence = request.sequence) :
    { plan with anchors := front ++ other :: back }.IsValid := by
  obtain ⟨distinct, compiles⟩ := valid
  rw [anchors] at distinct compiles
  refine ⟨?_, fun candidate member => ?_⟩
  · simpa only [List.map_append, List.map_cons, id] using distinct
  · rcases List.mem_append.mp member with earlier | here
    · exact compiles candidate (List.mem_append_left _ earlier)
    · rcases List.mem_cons.mp here with rfl | later
      · obtain ⟨compiled, success⟩ := compiles request (by simp)
        refine ⟨compiled, (candidate.compile_eq_ok_iff compiled).mpr ?_⟩
        rw [sequence]
        exact (request.compile_eq_ok_iff compiled).mp success
      · exact compiles candidate (by simp [later])

end PatchPlan

end MethodPatch
