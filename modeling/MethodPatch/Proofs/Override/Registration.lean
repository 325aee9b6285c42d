import MethodPatch.Override.Session

set_option autoImplicit false

namespace MethodPatch

namespace Method

/-- The same method, opened for overriding. -/
def widened (method : Method) : Method := { method with access := method.access.widened }

theorem isNamed_iff (method : Method) (name descriptor : String) :
    method.isNamed name descriptor = true ↔ method.name = name ∧ method.descriptor = descriptor := by
  simp only [isNamed, Bool.and_eq_true, beq_iff_eq]

theorem not_isNamed_of_isNamed {method : Method}
    {name descriptor other otherDescriptor : String}
    (different : ¬ (name = other ∧ descriptor = otherDescriptor))
    (named : method.isNamed name descriptor = true) :
    method.isNamed other otherDescriptor = false := by
  rw [← Bool.not_eq_true]
  intro alsoNamed
  rw [isNamed_iff] at named alsoNamed
  exact different ⟨named.1.symm.trans alsoNamed.1, named.2.symm.trans alsoNamed.2⟩

end Method

theorem Class.named_of_method? {owner : Class} {name descriptor : String} {method : Method}
    (found : owner.method? name descriptor = some method) :
    method.name = name ∧ method.descriptor = descriptor := by
  have passed := List.find?_some found
  exact (method.isNamed_iff name descriptor).mp passed

@[simp] theorem Access.isRestricted_widened (access : Access) :
    access.widened.isRestricted = false := by
  simp [Access.isRestricted, Access.widened]

namespace Candidate

theorem not_isInitializer_of_clear {candidate : Candidate}
    (clear : candidate.obstacle? = none) : candidate.key.isInitializer = false := by
  unfold obstacle? at clear
  split at clear
  · cases clear
  · split at clear
    · cases clear
    · rename_i _ named
      exact Bool.eq_false_iff.mpr named

theorem check_eq_error_iff (candidate : Candidate) (reason : OverrideError) :
    candidate.check = .error reason ↔
      ∃ obstacle, candidate.obstacle? = some obstacle ∧
        reason = .obstructed candidate.key obstacle := by
  unfold check
  cases candidate.obstacle? with
  | none => simp
  | some obstacle => simp [eq_comm]

theorem check_eq_ok_iff (candidate : Candidate) :
    candidate.check = .ok () ↔ candidate.obstacle? = none := by
  unfold check
  cases candidate.obstacle? <;> simp

end Candidate

namespace Workbench

variable {α β : Type}

theorem perform_bind (work : Work α) (next : α → Work β) (bench : Workbench) :
    perform (work >>= next) bench =
      match perform work bench with
      | (.ok value, later) => perform (next value) later
      | (.error reason, later) => (.error reason, later) := by
  simp only [perform, ExceptT.run_bind, StateT.run_bind]
  rcases work.run.run bench with ⟨_ | _, _⟩ <;> rfl

theorem perform_pure (value : α) (bench : Workbench) :
    perform (pure value) bench = (.ok value, bench) := rfl

theorem perform_get (bench : Workbench) : perform get bench = (.ok bench, bench) := rfl

theorem perform_throw (reason : OverrideError) (bench : Workbench) :
    perform (throw reason : Work α) bench = (.error reason, bench) := rfl

theorem perform_modify (change : Workbench → Workbench) (bench : Workbench) :
    perform (modify change) bench = (.ok ⟨⟩, change bench) := rfl

theorem perform_ofExcept (answer : Except OverrideError α) (bench : Workbench) :
    perform (ofExcept answer : Work α) bench = (answer, bench) := by
  cases answer <;> rfl

end Workbench

namespace Session

/-- Adds the rule for one more method. -/
def adding (session : Session) (target : MethodKey) : Session :=
  ⟨session.rules ++ [⟨target⟩], session.registered.insert target⟩

theorem isRegistered_iff (session : Session) (key : MethodKey) :
    session.isRegistered key = true ↔ key ∈ session.registered :=
  List.contains_iff_mem

theorem isRegistered_adding (session : Session) (target key : MethodKey) :
    (session.adding target).isRegistered key = (session.isRegistered key || target == key) := by
  rw [Bool.eq_iff_iff, Bool.or_eq_true, beq_iff_eq, isRegistered_iff, isRegistered_iff, adding,
    List.mem_insert_iff, or_comm, eq_comm]

/-- Adds the rules for several methods, in order. -/
def addingAll (session : Session) (targets : List MethodKey) : Session :=
  targets.foldl adding session

theorem rules_addingAll (session : Session) (targets : List MethodKey) :
    (session.addingAll targets).rules = session.rules ++ targets.map CallSiteRule.mk := by
  induction targets generalizing session with
  | nil => exact (List.append_nil _).symm
  | cons target rest ih =>
      have first : (session.addingAll (target :: rest)).rules =
          (session.adding target).rules ++ rest.map CallSiteRule.mk := ih (session.adding target)
      rw [first, adding, List.append_assoc]
      rfl

/-- The registered keys are those of the rules. -/
def IsConsistent (session : Session) : Prop :=
  ∀ key, key ∈ session.registered ↔ key ∈ session.rules.map (·.target)

theorem isConsistent_start : start.IsConsistent := fun _ => Iff.rfl

theorem IsConsistent.adding {session : Session} (consistent : session.IsConsistent)
    (target : MethodKey) : (session.adding target).IsConsistent := by
  intro key
  rw [Session.adding, List.mem_insert_iff, consistent key, List.map_append, List.mem_append,
    List.map_singleton, List.mem_singleton, or_comm]

theorem IsConsistent.isRegistered_eq_false_iff {session : Session}
    (consistent : session.IsConsistent) (key : MethodKey) :
    session.isRegistered key = false ↔ key ∉ session.rules.map (·.target) := by
  rw [← Bool.not_eq_true, isRegistered_iff, consistent key]

section Attempt

variable {session : Session} {owner : Class} {name descriptor : String}

theorem attempt_of_not_declared (absent : owner.method? name descriptor = none) :
    session.attempt owner name descriptor =
      (.error (.notDeclared ⟨owner.name, name, descriptor⟩), ⟨session, owner⟩) := by
  simp only [attempt, Workbench.openMethod, Workbench.perform_bind, Workbench.perform_get, absent,
    Workbench.perform_throw]

theorem attempt_of_registered {method : Method}
    (declared : owner.method? name descriptor = some method)
    (registered : session.isRegistered ⟨owner.name, name, descriptor⟩ = true) :
    session.attempt owner name descriptor =
      (.error (.alreadyRegistered ⟨owner.name, name, descriptor⟩), ⟨session, owner⟩) := by
  simp only [attempt, Workbench.openMethod, Workbench.perform_bind, Workbench.perform_get, declared,
    registered, ↓reduceIte, Workbench.perform_throw]

/-- What an attempt looks at is the candidate that the method makes. -/
theorem candidate_of_method? {method : Method}
    (declared : owner.method? name descriptor = some method) :
    (⟨⟨owner.name, name, descriptor⟩, method.access, owner.isInterface⟩ : Candidate) =
      Candidate.of owner method := by
  obtain ⟨rfl, rfl⟩ := Class.named_of_method? declared
  rfl

theorem attempt_of_obstructed {method : Method} {reason : OverrideError}
    (declared : owner.method? name descriptor = some method)
    (fresh : session.isRegistered ⟨owner.name, name, descriptor⟩ = false)
    (failed : (Candidate.of owner method).check = .error reason) :
    session.attempt owner name descriptor = (.error reason, ⟨session, owner⟩) := by
  rw [← candidate_of_method? declared] at failed
  simp only [attempt, Workbench.openMethod, Workbench.perform_bind, Workbench.perform_get, declared,
    fresh, Bool.false_eq_true, ↓reduceIte, Workbench.perform_ofExcept, failed]

theorem attempt_of_clear {method : Method}
    (declared : owner.method? name descriptor = some method)
    (fresh : session.isRegistered ⟨owner.name, name, descriptor⟩ = false)
    (passed : (Candidate.of owner method).check = .ok ()) :
    session.attempt owner name descriptor =
      (.ok ⟨⟨owner.name, name, descriptor⟩⟩,
        ⟨session.adding ⟨owner.name, name, descriptor⟩,
          owner.modifyMethod name descriptor Method.widened⟩) := by
  rw [← candidate_of_method? declared] at passed
  simp only [attempt, Workbench.openMethod, Workbench.perform_bind, Workbench.perform_get, declared,
    fresh, Bool.false_eq_true, ↓reduceIte, Workbench.perform_ofExcept, passed,
    Workbench.perform_modify, Workbench.perform_pure]
  rfl

end Attempt

/-- An attempt fails and leaves everything as it was, or it does all that it should. -/
theorem attempt_cases (session : Session) (owner : Class) (name descriptor : String) :
    (∃ reason, session.attempt owner name descriptor = (.error reason, ⟨session, owner⟩)) ∨
      ∃ method, owner.method? name descriptor = some method ∧
        session.isRegistered ⟨owner.name, name, descriptor⟩ = false ∧
        (Candidate.of owner method).obstacle? = none ∧
        session.attempt owner name descriptor =
          (.ok ⟨⟨owner.name, name, descriptor⟩⟩,
            ⟨session.adding ⟨owner.name, name, descriptor⟩,
              owner.modifyMethod name descriptor Method.widened⟩) := by
  cases declared : owner.method? name descriptor with
  | none => exact Or.inl ⟨_, attempt_of_not_declared declared⟩
  | some method =>
      cases fresh : session.isRegistered ⟨owner.name, name, descriptor⟩ with
      | true => exact Or.inl ⟨_, attempt_of_registered declared fresh⟩
      | false =>
          cases checked : (Candidate.of owner method).check with
          | error reason => exact Or.inl ⟨reason, attempt_of_obstructed declared fresh checked⟩
          | ok =>
              have clear := (Candidate.check_eq_ok_iff _).mp checked
              exact Or.inr ⟨method, rfl, rfl, clear, attempt_of_clear declared fresh checked⟩

theorem makeOverridable_of_ok {session : Session} {owner : Class} {name descriptor : String}
    {rule : CallSiteRule} {bench : Workbench}
    (made : session.attempt owner name descriptor = (.ok rule, bench)) :
    session.makeOverridable owner name descriptor = .ok (bench.session, bench.owner) := by
  rw [makeOverridable, made]

theorem makeOverridable_of_error {session : Session} {owner : Class} {name descriptor : String}
    {reason : OverrideError} {bench : Workbench}
    (refused : session.attempt owner name descriptor = (.error reason, bench)) :
    session.makeOverridable owner name descriptor = .error reason := by
  rw [makeOverridable, refused]

/-- The reasons against a registration, in the order in which they are looked for. -/
theorem makeOverridable_eq (session : Session) (owner : Class) (name descriptor : String) :
    session.makeOverridable owner name descriptor =
      match owner.method? name descriptor with
      | none => .error (.notDeclared ⟨owner.name, name, descriptor⟩)
      | some method =>
          if session.isRegistered ⟨owner.name, name, descriptor⟩ then
            .error (.alreadyRegistered ⟨owner.name, name, descriptor⟩)
          else
            (Candidate.of owner method).check.map fun _ =>
              (session.adding ⟨owner.name, name, descriptor⟩,
                owner.modifyMethod name descriptor Method.widened) := by
  cases declared : owner.method? name descriptor with
  | none => exact makeOverridable_of_error (attempt_of_not_declared declared)
  | some method =>
      cases fresh : session.isRegistered ⟨owner.name, name, descriptor⟩ with
      | true => exact makeOverridable_of_error (attempt_of_registered declared fresh)
      | false =>
          dsimp only
          cases checked : (Candidate.of owner method).check with
          | error reason =>
              exact makeOverridable_of_error (attempt_of_obstructed declared fresh checked)
          | ok => exact makeOverridable_of_ok (attempt_of_clear declared fresh checked)

theorem makeOverridable_eq_ok_iff (session later : Session) (owner opened : Class)
    (name descriptor : String) :
    session.makeOverridable owner name descriptor = .ok (later, opened) ↔
      ∃ method, owner.method? name descriptor = some method ∧
        session.isRegistered ⟨owner.name, name, descriptor⟩ = false ∧
        (Candidate.of owner method).obstacle? = none ∧
        later = session.adding ⟨owner.name, name, descriptor⟩ ∧
        opened = owner.modifyMethod name descriptor Method.widened := by
  constructor
  · intro success
    rcases session.attempt_cases owner name descriptor with
      ⟨reason, refused⟩ | ⟨method, declared, fresh, clear, made⟩
    · rw [makeOverridable_of_error refused] at success
      cases success
    · rw [makeOverridable_of_ok made, Except.ok.injEq, Prod.mk.injEq] at success
      exact ⟨method, declared, fresh, clear, success.1.symm, success.2.symm⟩
  · rintro ⟨method, declared, fresh, clear, rfl, rfl⟩
    exact makeOverridable_of_ok
      (attempt_of_clear declared fresh ((Candidate.check_eq_ok_iff _).mpr clear))

/-- A registration keeps the rules that there are. -/
theorem rules_subset_of_makeOverridable {session later : Session} {owner opened : Class}
    {name descriptor : String}
    (made : session.makeOverridable owner name descriptor = .ok (later, opened)) :
    session.rules ⊆ later.rules := by
  obtain ⟨_, _, _, _, rfl, _⟩ := (session.makeOverridable_eq_ok_iff _ _ _ _ _).mp made
  exact List.subset_append_left _ _

end Session

/-- The access of a private method. -/
def Access.onlyPrivate : Access := { Access.packagePrivate with isPrivate := true }

/-- A class with a method that calls another one of the same class: a small case for the theorems
about registrations. -/
def Class.drawing (name : String) (access : Access) (dispatch : Dispatch) : Class :=
  ⟨name, none, false,
    [⟨"draw", "()V", access, [], [], [], []⟩,
      ⟨"render", "()V", .packagePrivate, [dispatch.opcode, 0, 7],
        [.encoding 0 (.invoke ⟨name, "draw", "()V", dispatch, 0⟩)], [], []⟩], 0⟩

end MethodPatch
