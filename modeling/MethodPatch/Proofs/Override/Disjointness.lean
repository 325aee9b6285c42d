import MethodPatch.Proofs.Override.Registry
import Mathlib.Data.List.Pairwise

set_option autoImplicit false

namespace MethodPatch

/-- One item at most passes a test exactly when no two items do. -/
theorem countP_le_one_iff {α : Type} (passes : α → Bool) (items : List α) :
    items.countP passes ≤ 1 ↔
      items.Pairwise fun first second => ¬ (passes first = true ∧ passes second = true) := by
  induction items with
  | nil => simp
  | cons first rest ih =>
      rw [List.pairwise_cons, ← ih]
      by_cases passed : passes first = true
      · rw [List.countP_cons_of_pos passed]
        constructor
        · intro bound
          have none : rest.countP passes = 0 := by omega
          refine ⟨fun other member both => ?_, by omega⟩
          exact List.countP_eq_zero.mp none other member both.2
        · rintro ⟨alone, _⟩
          have none : rest.countP passes = 0 :=
            List.countP_eq_zero.mpr fun other member also => alone other member ⟨passed, also⟩
          omega
      · rw [List.countP_cons_of_neg passed]
        exact (and_iff_right fun other _ both => passed both.1).symm

theorem MethodKey.isSpelling_self (key : MethodKey) : key.isSpelling key = true := by
  rw [isSpelling_iff]
  exact ⟨rfl, rfl, TypeName.same_refl key.owner⟩

/-- Some call is for both of two rules exactly when their targets are spellings of one method. -/
theorem CallSiteRule.meet_iff (rule other : CallSiteRule) :
    (∃ (caller : String) (call : CallSite),
      rule.appliesTo caller call = true ∧ other.appliesTo caller call = true) ↔
        rule.target.isSpelling other.target = true := by
  constructor
  · rintro ⟨caller, call, applies, otherApplies⟩
    have spelled := ((rule.appliesTo_iff caller call).mp applies).2.1
    have otherSpelled := ((other.appliesTo_iff caller call).mp otherApplies).2.1
    rw [MethodKey.isSpelling_comm] at spelled
    exact MethodKey.isSpelling_trans spelled otherSpelled
  · intro spelled
    -- The special call that the first target itself describes is for both.
    let call : CallSite :=
      ⟨rule.target.owner, rule.target.name, rule.target.descriptor, .special, 0⟩
    have owners := ((MethodKey.isSpelling_iff _ _).mp spelled).2.2
    refine ⟨rule.target.owner, call, ?_, ?_⟩
    · rw [appliesTo_iff]
      exact ⟨rfl, rule.target.isSpelling_self, TypeName.same_refl _⟩
    · rw [appliesTo_iff]
      exact ⟨rfl, spelled, owners⟩

namespace Session

/-- Every call, from whatever class, is for one rule of the session at most. -/
def IsDisjoint (session : Session) : Prop :=
  ∀ (caller : String) (call : CallSite),
    session.rules.countP (fun rule => rule.appliesTo caller call) ≤ 1

theorem isDisjoint_iff_pairwise (session : Session) :
    session.IsDisjoint ↔ (session.rules.map (·.target)).Pairwise fun key other =>
      ¬ key.isSpelling other = true := by
  unfold IsDisjoint
  rw [List.pairwise_map]
  simp only [countP_le_one_iff, ← CallSiteRule.meet_iff, not_exists]
  constructor
  · intro apart
    rw [List.pairwise_iff_getElem]
    intro first second firstBound secondBound before caller call
    exact List.pairwise_iff_getElem.mp (apart caller call) first second firstBound secondBound before
  · intro apart caller call
    exact apart.imp fun separate => separate caller call

/-- A method that the class declares is refused as a duplicate exactly where its key is registered
in the very spelling of the class. -/
theorem makeOverridable_eq_duplicate_iff (session : Session) (owner : Class)
    (name descriptor : String) :
    session.makeOverridable owner name descriptor =
        .error (.alreadyRegistered ⟨owner.name, name, descriptor⟩) ↔
      (owner.method? name descriptor).isSome = true ∧
        session.isRegistered ⟨owner.name, name, descriptor⟩ = true := by
  rw [makeOverridable_eq]
  cases owner.method? name descriptor with
  | none => simp
  | some method =>
      by_cases registered : session.isRegistered ⟨owner.name, name, descriptor⟩ = true
      · simp [registered]
      · dsimp only
        unfold Candidate.check
        cases (Candidate.of owner method).obstacle? <;> simp [registered, Except.map]

/-- After any uses of a new session, each call is for one rule at most exactly when no two methods
that were registered differ in the spelling of their class alone. A registration is a duplicate
exactly when the same key was registered in the same spelling. -/
theorem isDisjoint_afterAll_iff (uses : List SessionUse) :
    ((start.afterAll uses).IsDisjoint ↔
      ∀ key ∈ start.opened uses, ∀ other ∈ start.opened uses,
        key.isSpelling other = true → key = other) ∧
    ∀ (owner : Class) (name descriptor : String),
      (start.afterAll uses).makeOverridable owner name descriptor =
          .error (.alreadyRegistered ⟨owner.name, name, descriptor⟩) ↔
        (owner.method? name descriptor).isSome = true ∧
          ⟨owner.name, name, descriptor⟩ ∈ start.opened uses := by
  have orderly := isOrderly_start.afterAll uses
  have distinct := orderly.distinct
  rw [targets_of_start] at distinct
  constructor
  · rw [isDisjoint_iff_pairwise, targets_of_start]
    constructor
    · intro apart key member other otherMember spelled
      have symmetric : Std.Symm fun key other : MethodKey => ¬ key.isSpelling other = true :=
        ⟨fun key other separate => by rwa [MethodKey.isSpelling_comm]⟩
      by_contra different
      exact apart.forall member otherMember different spelled
    · intro spelledOnce
      apply distinct.imp_of_mem
      intro key other member otherMember different spelled
      exact different (spelledOnce key member other otherMember spelled)
  · intro owner name descriptor
    rw [makeOverridable_eq_duplicate_iff]
    apply and_congr_right
    intro _
    rw [← targets_of_start, ← not_iff_not, Bool.not_eq_true,
      orderly.consistent.isRegistered_eq_false_iff]

/-- A class that is loaded in both spellings gets its method registered twice, and every call of it
is then for two rules. -/
theorem not_isDisjoint_respelled :
    let hud := Class.drawing "app/Hud" .onlyPrivate .special
    let again := Class.drawing "app.Hud" .onlyPrivate .special
    let uses := [SessionUse.makeOverridable hud "draw" "()V", .makeOverridable again "draw" "()V"]
    start.opened uses = [⟨"app/Hud", "draw", "()V"⟩, ⟨"app.Hud", "draw", "()V"⟩] ∧
      ¬ (start.afterAll uses).IsDisjoint := by
  intro hud again uses
  refine ⟨by decide +kernel, ?_⟩
  intro disjoint
  have twice : (start.afterAll uses).rules.countP (fun rule => rule.appliesTo "app.Hud"
      ⟨"app/Hud", "draw", "()V", .special, 0⟩) = 2 := by decide +kernel
  have once := disjoint "app.Hud" ⟨"app/Hud", "draw", "()V", .special, 0⟩
  omega

end Session

end MethodPatch
