import MethodPatch.Proofs.Override.History
import Mathlib.Data.List.Nodup

set_option autoImplicit false

namespace MethodPatch.Session

/-- The registered keys are those of the rules, and no two rules are for one key. -/
structure IsOrderly (session : Session) : Prop where
  consistent : session.IsConsistent
  distinct : (session.rules.map (·.target)).Nodup

theorem isOrderly_start : start.IsOrderly where
  consistent := isConsistent_start
  distinct := List.nodup_nil

/-- A registration of a key that is not registered keeps the registry in order. -/
theorem IsOrderly.adding {session : Session} (orderly : session.IsOrderly) {key : MethodKey}
    (fresh : session.isRegistered key = false) : (session.adding key).IsOrderly where
  consistent := orderly.consistent.adding key
  distinct := by
    have absent := (orderly.consistent.isRegistered_eq_false_iff key).mp fresh
    rw [Session.adding, List.map_append]
    refine List.nodup_append.mpr ⟨orderly.distinct, List.nodup_singleton key, ?_⟩
    rintro other member same here rfl
    have equal : other = key := List.mem_singleton.mp here
    exact absent (equal ▸ member)

theorem IsOrderly.after {session : Session} (orderly : session.IsOrderly) (use : SessionUse) :
    (session.after use).IsOrderly := by
  rcases session.after_cases use with ⟨_, same⟩ | ⟨key, _, added, fresh, _⟩
  · rw [same]
    exact orderly
  · rw [added]
    exact orderly.adding fresh

theorem IsOrderly.afterAll {session : Session} (orderly : session.IsOrderly)
    (uses : List SessionUse) : (session.afterAll uses).IsOrderly := by
  induction uses generalizing session with
  | nil => exact orderly
  | cons use rest ih => exact ih (orderly.after use)

/-- What was made overridable was made so by one of the uses, in the session as the uses before it
have left it. -/
theorem mem_opened_iff (session : Session) (uses : List SessionUse) (key : MethodKey) :
    key ∈ session.opened uses ↔ ∃ earlier use later, uses = earlier ++ use :: later ∧
      (session.afterAll earlier).opens? use = some key := by
  induction uses generalizing session with
  | nil => simp [opened]
  | cons first rest ih =>
      rw [opened, List.mem_append, Option.mem_toList, ih]
      constructor
      · rintro (opens | ⟨earlier, use, later, rfl, opens⟩)
        · exact ⟨[], first, rest, rfl, opens⟩
        · exact ⟨first :: earlier, use, later, rfl, opens⟩
      · rintro ⟨_ | ⟨other, earlier⟩, use, later, split, opens⟩
        · obtain ⟨rfl, rfl⟩ := List.cons.inj split
          exact Or.inl opens
        · obtain ⟨rfl, rfl⟩ := List.cons.inj split
          exact Or.inr ⟨earlier, use, later, rfl, opens⟩

/-- After any uses of a new session the registered keys are those of the rules; the rules are for
the methods that were made overridable, in this order, each of them once and no initializer among
them; a key is registered exactly when a use before has made it overridable; and a use that makes
no method overridable, an application or a refused registration, leaves the session as it is. -/
theorem registry_afterAll (uses : List SessionUse) :
    let session := start.afterAll uses
    (∀ key, key ∈ session.registered ↔ key ∈ session.rules.map (·.target)) ∧
    (session.rules.map (·.target)).Nodup ∧
    session.rules.map (·.target) = start.opened uses ∧
    (∀ rule ∈ session.rules, rule.target.isInitializer = false) ∧
    (∀ key, session.isRegistered key = true ↔ ∃ earlier use later,
      uses = earlier ++ use :: later ∧ (start.afterAll earlier).opens? use = some key) ∧
    ∀ use, session.opens? use = none → session.after use = session := by
  intro session
  have orderly : session.IsOrderly := isOrderly_start.afterAll uses
  have named (rule : CallSiteRule) (member : rule ∈ session.rules) :
      rule.target.isInitializer = false := not_isInitializer_of_opened (opened_of_rule member)
  refine ⟨orderly.consistent, orderly.distinct, targets_of_start uses, named, ?_, ?_⟩
  · intro key
    rw [isRegistered_iff, orderly.consistent key, targets_of_start, mem_opened_iff]
  · intro use nothing
    rcases session.after_cases use with ⟨_, same⟩ | ⟨key, opens, _⟩
    · exact same
    · rw [nothing] at opens
      cases opens

/-- A registration, an application, and the same registration again: the registry names the method
once, and the second attempt has left it as it was. -/
theorem registry_afterAll_repeated :
    let hud := Class.drawing "app/Hud" .onlyPrivate .special
    let draw := SessionUse.makeOverridable hud "draw" "()V"
    let key : MethodKey := ⟨"app/Hud", "draw", "()V"⟩
    let session := start.afterAll [draw, .apply hud]
    start.opens? draw = some key ∧ session.isRegistered key = true ∧
      session.rules.map (·.target) = start.opened [draw, .apply hud] ∧
      session.opens? draw = none ∧ session.after draw = session := by
  intro hud draw key session
  obtain ⟨_, _, targets, _, registered, kept⟩ := registry_afterAll [draw, .apply hud]
  have opens : start.opens? draw = some key := by decide +kernel
  have refused : session.opens? draw = none := by decide +kernel
  have known := (registered key).mpr ⟨[], draw, [.apply hud], rfl, opens⟩
  exact ⟨opens, known, targets, refused, kept draw refused⟩

end MethodPatch.Session
