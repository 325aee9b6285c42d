import MethodPatch.Proofs.Expression.InternalForm
import MethodPatch.Proofs.Override.Application

set_option autoImplicit false

namespace MethodPatch

theorem Instruction.madeVirtual_internal (instruction : Instruction) :
    instruction.internal.madeVirtual = instruction.madeVirtual.internal := by
  obtain ⟨offset, opcode, operation⟩ := instruction
  cases operation <;> rfl

namespace CallSiteRule

theorem appliesTo_internal (rule : CallSiteRule) (caller : String) (call : CallSite) :
    rule.appliesTo caller call.internal = rule.appliesTo caller call := by
  simp only [appliesTo, CallSite.internal, TypeName.same_internal_left]

theorem selects_internal (rule : CallSiteRule) (caller : String) (method : Method)
    (instruction : Instruction) :
    rule.selects caller method.internal instruction.internal =
      rule.selects caller method instruction := by
  obtain ⟨offset, opcode, operation⟩ := instruction
  cases operation with
  | invoke call =>
      have applies := rule.appliesTo_internal caller call
      exact congrArg (· && _) applies
  | _ => rfl

end CallSiteRule

namespace Session

variable (session : Session)

theorem selects_internal (caller : String) (bytecode : List UInt8) (instruction : Instruction) :
    session.selects caller bytecode instruction.internal =
      session.selects caller bytecode instruction := by
  have applies : session.appliesTo caller instruction.internal =
      session.appliesTo caller instruction := by
    obtain ⟨offset, opcode, operation⟩ := instruction
    cases operation with
    | invoke call =>
        simp only [appliesTo, Instruction.internal, Operation.internal,
          CallSiteRule.appliesTo_internal]
    | _ => rfl
  rw [selects, applies]
  rfl

/-- A body in internal form is changed at the same places, in its bytes as in its instructions. -/
theorem patchBody_internal (caller : String) (bytecode : List UInt8)
    (instructions : List Instruction) :
    session.patchBody caller bytecode (instructions.map Instruction.internal) =
      let body := session.patchBody caller bytecode instructions
      ⟨body.instructions.map Instruction.internal, body.bytecode, body.changed⟩ := by
  induction instructions generalizing bytecode with
  | nil => rfl
  | cons instruction rest ih =>
      have alike := session.selects_internal caller bytecode instruction
      rw [List.map_cons]
      by_cases selected : session.selects caller bytecode instruction = true
      · have offset : instruction.internal.offset = instruction.offset := rfl
        rw [patchBody_of_selects selected, patchBody_of_selects (alike.trans selected), offset, ih,
          Instruction.madeVirtual_internal]
        rfl
      · have passed : ¬ session.selects caller bytecode instruction.internal = true :=
          alike ▸ selected
        rw [patchBody_of_not_selects selected, patchBody_of_not_selects passed, ih]
        rfl

theorem applied_internal (classes : List Class) :
    session.applied (classes.map Class.internal) =
      (session.applied classes).map Class.internal := by
  have inMethod (caller : String) (method : Method) :
      (session.applyToMethod caller method.internal).1 =
        (session.applyToMethod caller method).1.internal := by
    have body := session.patchBody_internal caller method.bytecode method.instructions
    simp only [applyToMethod, Method.internal, body]
  simp only [applied, List.map_map]
  apply List.map_congr_left
  intro owner _
  simp only [Function.comp_apply, apply_eq, Class.internal, List.map_map, Function.comp_def,
    inMethod]

end Session

end MethodPatch
