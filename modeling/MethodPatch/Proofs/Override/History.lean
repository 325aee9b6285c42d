import MethodPatch.Proofs.Override.FixedPoint
import MethodPatch.Proofs.Override.Spelling

set_option autoImplicit false

namespace MethodPatch

/-- A use of a session. Every use brings its own class or method: what became of one since an
earlier use is left open. -/
inductive SessionUse where
  | makeOverridable (owner : Class) (name descriptor : String)
  | apply (owner : Class)
  | applyToMethod (caller : String) (method : Method)
deriving DecidableEq, Repr

namespace Session

/-- The method that a use makes overridable, if it makes one. -/
def opens? (session : Session) : SessionUse → Option MethodKey
  | .makeOverridable owner name descriptor =>
      match (session.attempt owner name descriptor).1 with
      | .ok _ => some ⟨owner.name, name, descriptor⟩
      | .error _ => none
  | .apply _ | .applyToMethod _ _ => none

/-- The session after a use. -/
def after (session : Session) : SessionUse → Session
  | .makeOverridable owner name descriptor =>
      (session.attempt owner name descriptor).2.session
  | .apply _ | .applyToMethod _ _ => session

/-- The session after several uses. -/
def afterAll (session : Session) : List SessionUse → Session
  | [] => session
  | use :: rest => (session.after use).afterAll rest

/-- The methods made overridable in the course of several uses, in order. -/
def opened (session : Session) : List SessionUse → List MethodKey
  | [] => []
  | use :: rest => (session.opens? use).toList ++ (session.after use).opened rest

/-- A use makes no method overridable and leaves the session, or it makes one that was not
registered and is no initializer, and adds its rule. -/
theorem after_cases (session : Session) (use : SessionUse) :
    session.opens? use = none ∧ session.after use = session ∨
      ∃ key, session.opens? use = some key ∧ session.after use = session.adding key ∧
        session.isRegistered key = false ∧ key.isInitializer = false := by
  cases use with
  | makeOverridable owner name descriptor =>
      rcases session.attempt_cases owner name descriptor with
        ⟨reason, refused⟩ | ⟨method, declared, fresh, clear, made⟩
      · left
        simp only [opens?, after, refused, and_self]
      · right
        have named := Candidate.not_isInitializer_of_clear clear
        rw [← candidate_of_method? declared] at named
        refine ⟨⟨owner.name, name, descriptor⟩, ?_, ?_, fresh, named⟩
        · simp only [opens?, made]
        · simp only [after, made]
  | apply owner => exact Or.inl ⟨rfl, rfl⟩
  | applyToMethod caller method => exact Or.inl ⟨rfl, rfl⟩

/-- A use adds the rule of the method that it makes overridable and does nothing else to the
rules. -/
theorem targets_after (session : Session) (use : SessionUse) :
    (session.after use).rules.map (·.target) =
      session.rules.map (·.target) ++ (session.opens? use).toList := by
  rcases session.after_cases use with ⟨opens, same⟩ | ⟨key, opens, added, _, _⟩
  · rw [opens, same, Option.toList_none, List.append_nil]
  · rw [opens, added, adding, List.map_append, Option.toList_some]
    rfl

theorem targets_afterAll (session : Session) (uses : List SessionUse) :
    (session.afterAll uses).rules.map (·.target) =
      session.rules.map (·.target) ++ session.opened uses := by
  induction uses generalizing session with
  | nil => exact (List.append_nil _).symm
  | cons use rest ih => rw [afterAll, opened, ih, targets_after, List.append_assoc]

/-- No initializer is made overridable. -/
theorem not_isInitializer_of_opens? {session : Session} {use : SessionUse} {key : MethodKey}
    (opens : session.opens? use = some key) : key.isInitializer = false := by
  rcases session.after_cases use with ⟨nothing, _⟩ | ⟨other, opened, _, _, named⟩
  · rw [nothing] at opens
    cases opens
  · rw [opened, Option.some.injEq] at opens
    exact opens ▸ named

theorem not_isInitializer_of_opened {session : Session} {uses : List SessionUse} {key : MethodKey}
    (opened : key ∈ session.opened uses) : key.isInitializer = false := by
  induction uses generalizing session with
  | nil => cases opened
  | cons use rest ih =>
      rcases List.mem_append.mp opened with here | later
      · exact not_isInitializer_of_opens? (Option.mem_toList.mp here)
      · exact ih later

theorem not_selects_of_foreign {session : Session} {caller : String}
    (foreign : ∀ rule ∈ session.rules, TypeName.same caller rule.target.owner = false)
    (bytecode : List UInt8) (instruction : Instruction) :
    ¬ session.selects caller bytecode instruction = true := by
  intro selected
  have applies := ((session.selects_iff caller bytecode instruction).mp selected).1
  obtain ⟨call, _, rule, member, ruled⟩ := (session.appliesTo_iff caller instruction).mp applies
  have own := ((rule.appliesTo_iff caller call).mp ruled).2.2
  rw [foreign rule member] at own
  cases own

theorem apply_of_foreign {session : Session} {owner : Class}
    (foreign : ∀ rule ∈ session.rules, TypeName.same owner.name rule.target.owner = false) :
    session.apply owner = (owner, 0) :=
  apply_of_isSettled fun method _ => (session.isSettledIn_iff owner.name method).mpr
    fun instruction _ => not_selects_of_foreign foreign method.bytecode instruction

end Session

/-- A call that may be changed in a method of the class `caller`, after the methods `opened` were
made overridable. -/
structure CallSite.IsReleased (call : CallSite) (opened : List MethodKey) (caller : String) :
    Prop where
  special : call.dispatch = .special
  own : TypeName.same call.owner caller = true
  notInitializer : call.key.isInitializer = false
  registered : ∃ key ∈ opened, call.key.isSpelling key = true

/-- Of a method of the class `caller`, no instructions were changed but released calls. -/
def Method.ChangedAsReleased (opened : List MethodKey) (caller : String)
    (before after : Method) : Prop :=
  List.Forall₂ (fun instruction changed => changed = instruction ∨
      ∃ call, instruction.call? = some call ∧ call.IsReleased opened caller)
    before.instructions after.instructions

namespace Session

/-- The rules of a session are for the methods that it made overridable, in order. -/
theorem targets_of_start (uses : List SessionUse) :
    (start.afterAll uses).rules.map (·.target) = start.opened uses :=
  start.targets_afterAll uses

theorem opened_of_rule {uses : List SessionUse} {rule : CallSiteRule}
    (member : rule ∈ (start.afterAll uses).rules) : rule.target ∈ start.opened uses :=
  targets_of_start uses ▸ List.mem_map_of_mem member

/-- What a rule is for, it is for because of a use that registered the method. -/
theorem isReleased_of_appliesTo {uses : List SessionUse} {caller : String}
    {instruction : Instruction}
    (applies : (start.afterAll uses).appliesTo caller instruction = true) :
    ∃ call, instruction.call? = some call ∧ call.IsReleased (start.opened uses) caller := by
  obtain ⟨call, calls, rule, member, ruled⟩ := (appliesTo_iff _ caller instruction).mp applies
  obtain ⟨special, spelled, callerOwns⟩ := (rule.appliesTo_iff caller call).mp ruled
  have registered := opened_of_rule member
  obtain ⟨names, _, owners⟩ := (MethodKey.isSpelling_iff _ _).mp spelled
  have own : TypeName.same call.owner caller = true := by
    rw [TypeName.same_comm] at callerOwns
    exact TypeName.same_trans owners callerOwns
  have notInitializer : call.key.isInitializer = false := by
    rw [MethodKey.isInitializer, names]
    exact not_isInitializer_of_opened registered
  exact ⟨call, calls, special, own, notInitializer, rule.target, registered, spelled⟩

theorem changedAsReleased_applyToMethod (uses : List SessionUse) (caller : String)
    (method : Method) :
    method.ChangedAsReleased (start.opened uses) caller
      ((start.afterAll uses).applyToMethod caller method).1 := by
  apply (forall₂_patchBody _ caller method.bytecode method.instructions).imp
  rintro instruction changed (kept | ⟨applies, _⟩)
  · exact Or.inl kept
  · exact Or.inr (isReleased_of_appliesTo applies)

/-- After any uses of a new session, an application changes no instructions but calls that the
registrations among the uses have released: special calls of a registered method from its own class,
never of an initializer. In a class that declares no registered method it changes nothing at all. -/
theorem changes_released (uses : List SessionUse) :
    (∀ (caller : String) (method : Method), method.ChangedAsReleased (start.opened uses) caller
      ((start.afterAll uses).applyToMethod caller method).1) ∧
    (∀ owner : Class, List.Forall₂ (Method.ChangedAsReleased (start.opened uses) owner.name)
      owner.methods ((start.afterAll uses).apply owner).1.methods) ∧
    (∀ owner : Class,
      (∀ key ∈ start.opened uses, TypeName.same owner.name key.owner = false) →
        (start.afterAll uses).apply owner = (owner, 0)) := by
  refine ⟨changedAsReleased_applyToMethod uses, ?_, ?_⟩
  · intro owner
    rw [apply_methods, List.forall₂_map_right_iff, List.forall₂_same]
    intro method _
    exact changedAsReleased_applyToMethod uses owner.name method
  · intro owner foreign
    exact apply_of_foreign fun rule member => foreign rule.target (opened_of_rule member)

/-- A registration for one class leaves another alone, though both call a method of one name. -/
theorem changes_released_other_class :
    let uses := [SessionUse.makeOverridable (.drawing "app/Hud" .onlyPrivate .special) "draw" "()V"]
    let menu := Class.drawing "app/Menu" .onlyPrivate .special
    start.opened uses = [⟨"app/Hud", "draw", "()V"⟩] ∧
      (start.afterAll uses).apply menu = (menu, 0) := by
  intro uses menu
  have opened : start.opened uses = [⟨"app/Hud", "draw", "()V"⟩] := by decide +kernel
  have foreign : ∀ key ∈ start.opened uses, TypeName.same menu.name key.owner = false := by
    rw [opened]
    decide +kernel
  exact ⟨opened, (changes_released uses).2.2 menu foreign⟩

end Session

end MethodPatch
