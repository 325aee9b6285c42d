import MethodPatch.Plan.Overrides
import MethodPatch.Proofs.Override.Registration
import MethodPatch.Proofs.TypeName

set_option autoImplicit false

namespace MethodPatch

namespace Class

/-- The class without the access flags of its methods. -/
def unflagged (owner : Class) : Class :=
  { owner with methods := owner.methods.map fun method =>
      { method with access := .packagePrivate } }

theorem unflagged_modifyMethod (owner : Class) (name descriptor : String) :
    (owner.modifyMethod name descriptor Method.widened).unflagged = owner.unflagged := by
  simp only [unflagged, modifyMethod, Class.mk.injEq, and_true, true_and]
  exact FirstMatch.map_modify _ _ _ _ fun _ _ => rfl

/-- Looking up a method does not meet the widening of another one. -/
theorem method?_modifyMethod_of_ne (owner : Class) {name descriptor other otherDescriptor : String}
    (different : ¬ (name = other ∧ descriptor = otherDescriptor)) :
    (owner.modifyMethod other otherDescriptor Method.widened).method? name descriptor =
      owner.method? name descriptor := by
  apply FirstMatch.find?_modify_of_apart
  intro method named
  have otherwise : method.isNamed name descriptor = false :=
    Method.not_isNamed_of_isNamed (fun equal => different ⟨equal.1.symm, equal.2.symm⟩) named
  exact ⟨otherwise, otherwise⟩

end Class

namespace OverrideRequest

/-- The method that is asked for, under the name of the first class of the requested type. -/
def target? (request : OverrideRequest) (classes : List Class) : Option MethodKey :=
  (classes.find? request.isFor).map fun owner =>
    ⟨owner.name, request.method, request.descriptor⟩

theorem named_of_find? (request : OverrideRequest) {classes : List Class} {owner : Class}
    (found : classes.find? request.isFor = some owner) :
    TypeName.same owner.name request.className = true := by
  have passed := List.find?_some found
  exact passed

theorem isFor_congr {request other : OverrideRequest}
    (same : TypeName.same request.className other.className = true) :
    request.isFor = other.isFor := by
  funext owner
  exact TypeName.same_congr_right same owner.name

/-- Requests that name one type find the same class in every list, at the same position; requests
that name two do not. -/
theorem same_className_iff_find? (request other : OverrideRequest) :
    TypeName.same request.className other.className = true ↔
      ∀ classes : List Class,
        classes.findIdx? request.isFor = classes.findIdx? other.isFor ∧
          classes.find? request.isFor = classes.find? other.isFor := by
  constructor
  · intro same classes
    rw [isFor_congr same]
    exact ⟨rfl, rfl⟩
  · intro alike
    let named : Class := ⟨request.className, none, false, [], 0⟩
    have found : [named].find? request.isFor = some named :=
      List.find?_cons_of_pos (TypeName.same_refl request.className)
    exact other.named_of_find? ((alike [named]).2.symm.trans found)

theorem same_className_of_isFor {request other : OverrideRequest} {owner : Class}
    (asked : request.isFor owner = true) (otherAsked : other.isFor owner = true) :
    TypeName.same request.className other.className = true := by
  rw [isFor, TypeName.same_comm] at asked
  exact TypeName.same_trans asked otherAsked

/-- Requests that are for one class are for the same classes. -/
theorem isFor_eq_of_isFor {request other : OverrideRequest} {owner : Class}
    (asked : request.isFor owner = true) (otherAsked : other.isFor owner = true) :
    request.isFor = other.isFor :=
  isFor_congr (same_className_of_isFor asked otherAsked)

/-- Requests for classes of different names are for different classes. -/
theorem isFor_apart {request other : OverrideRequest}
    (different : TypeName.same request.className other.className = false) {owner : Class}
    (asked : request.isFor owner = true) : other.isFor owner = false := by
  rw [← Bool.not_eq_true]
  intro otherAsked
  rw [same_className_of_isFor asked otherAsked] at different
  cases different

/-- Different methods that are asked for in one class differ in name or descriptor. -/
theorem not_named_alike_of_target?_ne {request other : OverrideRequest} {classes : List Class}
    (searches : request.isFor = other.isFor)
    (different : request.target? classes ≠ other.target? classes) :
    ¬ (request.method = other.method ∧ request.descriptor = other.descriptor) := by
  rintro ⟨names, descriptors⟩
  rw [target?, target?, searches, names, descriptors] at different
  exact different rfl

/-- What a request does to the class that it is for. -/
def widenIn (request : OverrideRequest) (owner : Class) : Class :=
  owner.modifyMethod request.method request.descriptor Method.widened

/-- The classes after the method that is asked for was widened. -/
def widen (request : OverrideRequest) (classes : List Class) : List Class :=
  FirstMatch.modify request.isFor
    (fun owner => owner.modifyMethod request.method request.descriptor Method.widened) classes

theorem widen_unflagged (request : OverrideRequest) (classes : List Class) :
    (request.widen classes).map Class.unflagged = classes.map Class.unflagged :=
  FirstMatch.map_modify _ _ _ _ fun owner _ => owner.unflagged_modifyMethod _ _

theorem target?_unflagged (request : OverrideRequest) (classes : List Class) :
    request.target? (classes.map Class.unflagged) = request.target? classes := by
  simp only [target?, List.find?_map, Option.map_map]
  rfl

@[simp] theorem target?_widen (request other : OverrideRequest) (classes : List Class) :
    request.target? (other.widen classes) = request.target? classes := by
  rw [← target?_unflagged, widen_unflagged, target?_unflagged]

theorem register_eq_ok_iff (request : OverrideRequest) (session later : Session)
    (classes widened : List Class) :
    request.register session classes = .ok (later, widened) ↔
      ∃ owner method, classes.find? request.isFor = some owner ∧
        owner.method? request.method request.descriptor = some method ∧
        session.isRegistered ⟨owner.name, request.method, request.descriptor⟩ = false ∧
        (Candidate.of owner method).obstacle? = none ∧
        later = session.adding ⟨owner.name, request.method, request.descriptor⟩ ∧
        widened = request.widen classes := by
  have changed (owner : Class) := FirstMatch.modify_found request.isFor
    (fun owner => owner.modifyMethod request.method request.descriptor Method.widened)
    classes owner
  constructor
  · intro success
    unfold register at success
    cases found : classes.find? request.isFor with
    | none =>
        rw [found] at success
        cases success
    | some owner =>
        cases made : session.makeOverridable owner request.method request.descriptor with
        | error reason =>
            rw [found] at success
            simp only [made] at success
            cases success
        | ok result =>
            obtain ⟨after, opened⟩ := result
            obtain ⟨method, declared, fresh, clear, rfl, rfl⟩ :=
              (session.makeOverridable_eq_ok_iff after owner opened _ _).mp made
            rw [found] at success
            simp only [made, Except.ok.injEq, Prod.mk.injEq] at success
            obtain ⟨rfl, rfl⟩ := success
            exact ⟨owner, method, rfl, declared, fresh, clear, rfl, changed owner found⟩
  · rintro ⟨owner, method, found, declared, fresh, clear, rfl, rfl⟩
    have made := (session.makeOverridable_eq_ok_iff _ owner _ _ _).mpr
      ⟨method, declared, fresh, clear, rfl, rfl⟩
    rw [register, found]
    simp only [made, changed owner found, widen]

/-- The method that is asked for, with what decides whether it can be made overridable. -/
def candidate? (request : OverrideRequest) (classes : List Class) : Option Candidate :=
  (classes.find? request.isFor).bind fun owner =>
    (owner.method? request.method request.descriptor).map (Candidate.of owner)

/-- The method that is asked for is there and can be made overridable. -/
def isClear (request : OverrideRequest) (classes : List Class) : Bool :=
  (request.candidate? classes).any fun candidate => candidate.obstacle?.isNone

theorem target?_of_isClear {request : OverrideRequest} {classes : List Class}
    (clear : request.isClear classes = true) : ∃ key, request.target? classes = some key := by
  cases found : classes.find? request.isFor with
  | none =>
      rw [isClear, candidate?, found] at clear
      cases clear
  | some owner => exact ⟨_, by rw [target?, found, Option.map_some]⟩

/-- What is asked for is as it was after another request was carried out. -/
theorem candidate?_widen_of_ne {request other : OverrideRequest} {classes : List Class}
    (different : request.target? classes ≠ other.target? classes) :
    request.candidate? (other.widen classes) = request.candidate? classes := by
  cases same : TypeName.same request.className other.className with
  | true =>
      have searches := isFor_congr same
      have found : (other.widen classes).find? request.isFor =
          (classes.find? request.isFor).map other.widenIn := by
        rw [searches]
        exact FirstMatch.find?_modify other.isFor other.widenIn classes fun _ asked => asked
      rw [candidate?, candidate?, found]
      have methods := not_named_alike_of_target?_ne searches different
      cases classes.find? request.isFor with
      | none => rfl
      | some owner =>
          have declared : (other.widenIn owner).method? request.method request.descriptor =
              owner.method? request.method request.descriptor :=
            owner.method?_modifyMethod_of_ne methods
          rw [Option.map_some, Option.bind_some, Option.bind_some, declared]
          rfl
  | false =>
      have found : (other.widen classes).find? request.isFor = classes.find? request.isFor := by
        apply FirstMatch.find?_modify_of_apart
        intro owner asked
        rw [TypeName.same_comm] at same
        exact ⟨isFor_apart same asked, isFor_apart same asked⟩
      rw [candidate?, candidate?, found]

theorem isClear_widen_of_ne {request other : OverrideRequest} {classes : List Class}
    (different : request.target? classes ≠ other.target? classes) :
    request.isClear (other.widen classes) = request.isClear classes := by
  rw [isClear, isClear, candidate?_widen_of_ne different]

/-- A request succeeds where its target is clear and not registered. -/
theorem register_eq_ok_iff_isClear (request : OverrideRequest) (session later : Session)
    (classes widened : List Class) :
    request.register session classes = .ok (later, widened) ↔
      ∃ key, request.target? classes = some key ∧ request.isClear classes = true ∧
        session.isRegistered key = false ∧ later = session.adding key ∧
        widened = request.widen classes := by
  rw [register_eq_ok_iff, target?, isClear, candidate?]
  cases classes.find? request.isFor with
  | none => simp
  | some owner =>
      simp only [Option.some.injEq, exists_and_left, exists_eq_left', Option.map_some,
        Option.bind_some]
      cases owner.method? request.method request.descriptor with
      | none => simp
      | some method => simp [and_left_comm]

/-- Two names are spellings of one type exactly when writing every dot as a slash makes them equal.
So being such spellings is an equivalence of names, and two names lead to the same first class, in
every list of classes, exactly when they are such spellings. -/
theorem spellings_share_form_and_class :
    (∀ left right : String,
      TypeName.same left right = true ↔ TypeName.internal left = TypeName.internal right) ∧
    Equivalence (fun left right : String => TypeName.same left right = true) ∧
    ∀ request other : OverrideRequest,
      TypeName.same request.className other.className = true ↔
        ∀ classes : List Class,
          classes.findIdx? request.isFor = classes.findIdx? other.isFor ∧
            classes.find? request.isFor = classes.find? other.isFor := by
  refine ⟨fun left right => (TypeName.internal_eq_iff left right).symm, ?_,
    same_className_iff_find?⟩
  exact ⟨TypeName.same_refl, fun {left right} same => (TypeName.same_comm right left).trans same,
    TypeName.same_trans⟩

end OverrideRequest

end MethodPatch
