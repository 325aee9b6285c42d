import MethodPatch.Proofs.Override.History

set_option autoImplicit false

namespace MethodPatch

/-- The obstacles in the order in which they are looked for. -/
def Obstacle.inOrder : List Obstacle := [.static, .initializer, .notRestricted, .interfaceOwner]

theorem Obstacle.mem_inOrder (obstacle : Obstacle) : obstacle ∈ inOrder := by
  cases obstacle <;> decide

namespace Candidate

/-- The obstacle is in the way of the candidate. -/
def meets (candidate : Candidate) : Obstacle → Bool
  | .static => candidate.access.isStatic
  | .initializer => candidate.key.isInitializer
  | .notRestricted => !candidate.access.isRestricted
  | .interfaceOwner => candidate.ownerIsInterface

theorem obstacle?_eq_find? (candidate : Candidate) :
    candidate.obstacle? = Obstacle.inOrder.find? candidate.meets := by
  unfold obstacle? Obstacle.inOrder
  cases static : candidate.access.isStatic
  · cases initializer : candidate.key.isInitializer
    · cases restricted : candidate.access.isRestricted
      · simp [meets, static, initializer, restricted]
      · cases interfaceOwner : candidate.ownerIsInterface <;>
          simp [meets, static, initializer, restricted, interfaceOwner]
    · simp [meets, static, initializer]
  · simp [meets, static]

theorem obstacle?_eq_none_iff (candidate : Candidate) :
    candidate.obstacle? = none ↔ ∀ obstacle, candidate.meets obstacle = false := by
  rw [obstacle?_eq_find?, List.find?_eq_none]
  constructor
  · intro clear obstacle
    exact Bool.eq_false_iff.mpr (clear obstacle obstacle.mem_inOrder)
  · intro clear obstacle _
    exact Bool.eq_false_iff.mp (clear obstacle)

end Candidate

/-- The class became `after` when its first method of this name and descriptor was opened: that
method is protected in place of private, and nothing else is different. -/
def Class.IsOpened (name descriptor : String) (before after : Class) : Prop :=
  ∃ (earlier : List Method) (method : Method) (later : List Method),
    before.methods = earlier ++ method :: later ∧
    method.isNamed name descriptor = true ∧
    (∀ other ∈ earlier, other.isNamed name descriptor = false) ∧
    after = { before with methods := earlier ++
      { method with access := { method.access with isPrivate := false, isProtected := true } } ::
        later }

theorem Class.isOpened_modifyMethod {owner : Class} {name descriptor : String} {method : Method}
    (declared : owner.method? name descriptor = some method) :
    owner.IsOpened name descriptor (owner.modifyMethod name descriptor Method.widened) := by
  obtain ⟨named, earlier, later, split, others⟩ := List.find?_eq_some_iff_append.mp declared
  have failed : ∀ other ∈ earlier, other.isNamed name descriptor = false := by
    intro other member
    simpa using others other member
  have methods := FirstMatch.modify_append_cons (·.isNamed name descriptor) Method.widened earlier
    later method named failed
  refine ⟨earlier, method, later, split, named, failed, ?_⟩
  rw [modifyMethod, split, methods]
  rfl

namespace Session

/-- The answer that is due when a method of the class is to be made overridable. -/
inductive IsDue (session : Session) (owner : Class) (name descriptor : String) :
    Except OverrideError CallSiteRule → Prop where
  | notDeclared (absent : owner.method? name descriptor = none) :
      IsDue session owner name descriptor (.error (.notDeclared ⟨owner.name, name, descriptor⟩))
  | alreadyRegistered (method : Method)
      (declared : owner.method? name descriptor = some method)
      (registered : session.isRegistered ⟨owner.name, name, descriptor⟩ = true) :
      IsDue session owner name descriptor
        (.error (.alreadyRegistered ⟨owner.name, name, descriptor⟩))
  | obstructed (method : Method) (obstacle : Obstacle)
      (declared : owner.method? name descriptor = some method)
      (fresh : session.isRegistered ⟨owner.name, name, descriptor⟩ = false)
      (first : Obstacle.inOrder.find? (Candidate.of owner method).meets = some obstacle) :
      IsDue session owner name descriptor
        (.error (.obstructed ⟨owner.name, name, descriptor⟩ obstacle))
  | opened (method : Method)
      (declared : owner.method? name descriptor = some method)
      (fresh : session.isRegistered ⟨owner.name, name, descriptor⟩ = false)
      (clear : ∀ obstacle, (Candidate.of owner method).meets obstacle = false) :
      IsDue session owner name descriptor (.ok ⟨⟨owner.name, name, descriptor⟩⟩)

theorem isDue_attempt (session : Session) (owner : Class) (name descriptor : String) :
    session.IsDue owner name descriptor (session.attempt owner name descriptor).1 := by
  cases declared : owner.method? name descriptor with
  | none =>
      rw [attempt_of_not_declared declared]
      exact .notDeclared declared
  | some method =>
      cases fresh : session.isRegistered ⟨owner.name, name, descriptor⟩ with
      | true =>
          rw [attempt_of_registered declared fresh]
          exact .alreadyRegistered method declared fresh
      | false =>
          cases obstacle : (Candidate.of owner method).obstacle? with
          | some obstacle =>
              have failed := (Candidate.check_eq_error_iff _ _).mpr ⟨_, obstacle, rfl⟩
              rw [attempt_of_obstructed declared fresh failed, ← candidate_of_method? declared]
              exact .obstructed method _ declared fresh (Candidate.obstacle?_eq_find? _ ▸ obstacle)
          | none =>
              have passed := (Candidate.check_eq_ok_iff _).mpr obstacle
              rw [attempt_of_clear declared fresh passed]
              exact .opened method declared fresh ((Candidate.obstacle?_eq_none_iff _).mp obstacle)

/-- An attempt gives the answer that is due and no other. -/
theorem attempt_fst_eq_iff (session : Session) (owner : Class) (name descriptor : String)
    (answer : Except OverrideError CallSiteRule) :
    (session.attempt owner name descriptor).1 = answer ↔
      session.IsDue owner name descriptor answer := by
  constructor
  · rintro rfl
    exact session.isDue_attempt owner name descriptor
  · intro due
    cases due with
    | notDeclared absent => rw [attempt_of_not_declared absent]
    | alreadyRegistered method declared registered =>
        rw [attempt_of_registered declared registered]
    | obstructed method obstacle declared fresh first =>
        rw [← Candidate.obstacle?_eq_find?] at first
        have failed := (Candidate.check_eq_error_iff _ _).mpr ⟨obstacle, first, rfl⟩
        rw [attempt_of_obstructed declared fresh failed, ← candidate_of_method? declared]
    | opened method declared fresh clear =>
        have passed := (Candidate.check_eq_ok_iff _).mpr
          ((Candidate.obstacle?_eq_none_iff _).mpr clear)
        rw [attempt_of_clear declared fresh passed]

/-- Where a declared method is not registered, an attempt fails as the check of the method does. -/
theorem attempt_fst_eq_error_iff_check {session : Session} {owner : Class}
    {name descriptor : String} {method : Method}
    (declared : owner.method? name descriptor = some method)
    (fresh : session.isRegistered ⟨owner.name, name, descriptor⟩ = false) (reason : OverrideError) :
    (session.attempt owner name descriptor).1 = .error reason ↔
      (Candidate.of owner method).check = .error reason := by
  cases checked : (Candidate.of owner method).check with
  | error other =>
      rw [attempt_of_obstructed declared fresh checked]
      simp
  | ok =>
      rw [attempt_of_clear declared fresh checked]
      exact iff_of_false nofun nofun

/-- An attempt that is refused leaves everything as it is. -/
theorem attempt_snd_of_error {session : Session} {owner : Class} {name descriptor : String}
    {reason : OverrideError}
    (refused : (session.attempt owner name descriptor).1 = .error reason) :
    (session.attempt owner name descriptor).2 = ⟨session, owner⟩ := by
  rcases session.attempt_cases owner name descriptor with ⟨_, unchanged⟩ | ⟨_, _, _, _, made⟩
  · exact congrArg Prod.snd unchanged
  · rw [made] at refused
    cases refused

/-- An attempt that succeeds has widened the method and added its rule. -/
theorem attempt_of_ok {session : Session} {owner : Class} {name descriptor : String}
    {rule : CallSiteRule} (opened : (session.attempt owner name descriptor).1 = .ok rule) :
    ∃ method, owner.method? name descriptor = some method ∧
      rule = ⟨⟨owner.name, name, descriptor⟩⟩ ∧
      (session.attempt owner name descriptor).2 =
        ⟨session.adding ⟨owner.name, name, descriptor⟩,
          owner.modifyMethod name descriptor Method.widened⟩ := by
  rcases session.attempt_cases owner name descriptor with
    ⟨_, unchanged⟩ | ⟨method, declared, _, _, made⟩
  · rw [unchanged] at opened
    cases opened
  · rw [made] at opened ⊢
    exact ⟨method, declared, (Except.ok.inj opened).symm, rfl⟩

theorem isRegistered_after {session : Session} {key : MethodKey}
    (registered : session.isRegistered key = true) (use : SessionUse) :
    (session.after use).isRegistered key = true := by
  rcases session.after_cases use with ⟨_, same⟩ | ⟨other, _, added, _⟩
  · rwa [same]
  · rw [added, isRegistered_adding, registered, Bool.true_or]

/-- What is registered stays registered. -/
theorem isRegistered_afterAll {session : Session} {key : MethodKey}
    (registered : session.isRegistered key = true) (uses : List SessionUse) :
    (session.afterAll uses).isRegistered key = true := by
  induction uses generalizing session with
  | nil => exact registered
  | cons use rest ih => exact ih (isRegistered_after registered use)

/-- Once a key is registered, attempts at it are refused for good. -/
theorem attempt_afterAll_of_isRegistered {session : Session} {owner : Class}
    {name descriptor : String}
    (registered : session.isRegistered ⟨owner.name, name, descriptor⟩ = true)
    (declared : (owner.method? name descriptor).isSome = true) (uses : List SessionUse) :
    ((session.afterAll uses).attempt owner name descriptor).1 =
      .error (.alreadyRegistered ⟨owner.name, name, descriptor⟩) := by
  obtain ⟨method, found⟩ := Option.isSome_iff_exists.mp declared
  rw [attempt_of_registered found (isRegistered_afterAll registered uses)]

/-- An attempt to make a method overridable gives the answer that is due: the first reason against
it or, where there is none, the rule of the method. With a reason it leaves the session and the
class as they are. With the rule it has opened the first such method, has added the rule after the
others, and every attempt at a method of that key later in the session is refused as a duplicate. -/
theorem attempt_all_or_nothing (session : Session) (owner : Class) (name descriptor : String) :
    let key : MethodKey := ⟨owner.name, name, descriptor⟩
    let result := session.attempt owner name descriptor
    (∀ answer, result.1 = answer ↔ session.IsDue owner name descriptor answer) ∧
    (∀ method, owner.method? name descriptor = some method → session.isRegistered key = false →
      ∀ reason, result.1 = .error reason ↔ (Candidate.of owner method).check = .error reason) ∧
    (∀ reason, result.1 = .error reason → result.2 = ⟨session, owner⟩) ∧
    ∀ rule, result.1 = .ok rule →
      rule = ⟨key⟩ ∧ result.2.session.rules = session.rules ++ [⟨key⟩] ∧
      owner.IsOpened name descriptor result.2.owner ∧
      ∀ (uses : List SessionUse) (other : Class), other.name = owner.name →
        (other.method? name descriptor).isSome = true →
        ((result.2.session.afterAll uses).attempt other name descriptor).1 =
          .error (.alreadyRegistered key) := by
  intro key result
  refine ⟨session.attempt_fst_eq_iff owner name descriptor,
    fun method declared fresh => attempt_fst_eq_error_iff_check declared fresh,
    fun reason refused => attempt_snd_of_error refused, ?_⟩
  intro rule opened
  obtain ⟨method, declared, named, bench⟩ := attempt_of_ok opened
  change result.2 = ⟨session.adding key, _⟩ at bench
  rw [bench]
  refine ⟨named, rfl, Class.isOpened_modifyMethod declared, ?_⟩
  intro uses other sameName declaredThere
  have registered : (session.adding key).isRegistered ⟨other.name, name, descriptor⟩ = true := by
    rw [isRegistered_adding, sameName, beq_self_eq_true, Bool.or_true]
  have refused := attempt_afterAll_of_isRegistered registered declaredThere uses
  rwa [sameName] at refused

/-- A private method is opened once, and an attempt at it is refused afterwards, on the class as it
was at the start. A method that is open already is refused as its check says. -/
theorem attempt_all_or_nothing_drawing :
    let hud := Class.drawing "app/Hud" .onlyPrivate .special
    let key : MethodKey := ⟨"app/Hud", "draw", "()V"⟩
    let result := start.attempt hud "draw" "()V"
    let menu := Class.drawing "app/Menu" Access.onlyPrivate.widened .special
    let reason := OverrideError.obstructed ⟨"app/Menu", "draw", "()V"⟩ .notRestricted
    result.1 = .ok ⟨key⟩ ∧ result.2.session.rules = [⟨key⟩] ∧
      ((result.2.session.afterAll [.apply hud]).attempt hud "draw" "()V").1 =
        .error (.alreadyRegistered key) ∧
      (start.attempt menu "draw" "()V").1 = .error reason ∧
      (start.attempt menu "draw" "()V").2 = ⟨start, menu⟩ := by
  intro hud key result menu reason
  obtain ⟨_, _, _, success⟩ := start.attempt_all_or_nothing hud "draw" "()V"
  obtain ⟨_, checks, failure, _⟩ := start.attempt_all_or_nothing menu "draw" "()V"
  have opened : result.1 = .ok ⟨key⟩ := by decide +kernel
  obtain ⟨_, rules, _, refused⟩ := success ⟨key⟩ opened
  have again := refused [.apply hud] hud rfl (by decide +kernel)
  let draw : Method := ⟨"draw", "()V", Access.onlyPrivate.widened, [], [], [], []⟩
  have obstructed := (checks draw (by decide +kernel) (by decide +kernel) reason).mpr
    (by decide +kernel)
  exact ⟨opened, rules, again, obstructed, failure reason obstructed⟩

end Session

end MethodPatch
