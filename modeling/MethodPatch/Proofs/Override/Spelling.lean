import MethodPatch.Override.Session
import MethodPatch.Proofs.TypeName

set_option autoImplicit false

namespace MethodPatch

namespace MethodKey

/-- Two keys are of one method, in whatever spelling their owners stand. -/
def isSpelling (first second : MethodKey) : Bool :=
  first.name == second.name && first.descriptor == second.descriptor &&
    TypeName.same first.owner second.owner

theorem isSpelling_iff (first second : MethodKey) :
    first.isSpelling second = true ↔
      first.name = second.name ∧ first.descriptor = second.descriptor ∧
        TypeName.same first.owner second.owner = true := by
  simp only [isSpelling, Bool.and_eq_true, beq_iff_eq, and_assoc]

theorem isSpelling_comm (first second : MethodKey) :
    first.isSpelling second = second.isSpelling first := by
  rw [Bool.eq_iff_iff, isSpelling_iff, isSpelling_iff, eq_comm (a := first.name),
    eq_comm (a := first.descriptor), TypeName.same_comm]

theorem isSpelling_trans {first second third : MethodKey} (left : first.isSpelling second = true)
    (right : second.isSpelling third = true) : first.isSpelling third = true := by
  rw [isSpelling_iff] at *
  exact ⟨left.1.trans right.1, left.2.1.trans right.2.1,
    TypeName.same_trans left.2.2 right.2.2⟩

end MethodKey

/-- The method that a call names. -/
def CallSite.key (call : CallSite) : MethodKey := ⟨call.owner, call.name, call.descriptor⟩

theorem CallSiteRule.appliesTo_iff (rule : CallSiteRule) (caller : String) (call : CallSite) :
    rule.appliesTo caller call = true ↔
      call.dispatch = .special ∧ call.key.isSpelling rule.target = true ∧
        TypeName.same caller rule.target.owner = true := by
  simp only [appliesTo, MethodKey.isSpelling, CallSite.key, Bool.and_eq_true, beq_iff_eq, and_assoc]

end MethodPatch
