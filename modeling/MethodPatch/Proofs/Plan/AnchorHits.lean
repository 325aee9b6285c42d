import MethodPatch.Proofs.Matching.FirstOfAll
import MethodPatch.Proofs.Plan.Validity
import MethodPatch.Proofs.TypeName
import Mathlib.Data.List.Nodup

set_option autoImplicit false

namespace MethodPatch

theorem flatMap_filter {α β : Type} (keeps : α → Bool) (items : List α) (parts : α → List β) :
    (items.filter keeps).flatMap parts =
      items.flatMap fun item => if keeps item then parts item else [] := by
  induction items with
  | nil => rfl
  | cons item rest ih => by_cases kept : keeps item <;> simp [kept, ih]

namespace AnchorRequest

/-- The methods that a request looks at, each with its class. -/
def targets (request : AnchorRequest) (classes : List Class) : List (Class × Method) :=
  (classes.filter request.isForClass).flatMap fun owner =>
    (owner.methods.filter request.isForMethod).map fun method => (owner, method)

/-- The hit of a request that an anchor in one of its methods is. -/
def hitAt (request : AnchorRequest) (target : Class × Method) (anchor : Anchor) : AnchorHit :=
  ⟨request.id, target.1.name, target.2.name, target.2.descriptor, anchor⟩

/-- All anchors of a sequence in a method, as hits of the request. -/
def allHitsAt (request : AnchorRequest) (sequence : MatchSequence) (target : Class × Method) :
    List AnchorHit :=
  (target.2.locateAll target.1.name sequence).map (request.hitAt target)

/-- As many of them as the request asks for. -/
def hitsAt (request : AnchorRequest) (sequence : MatchSequence) (target : Class × Method) :
    List AnchorHit :=
  match request.cardinality with
  | .first => (request.allHitsAt sequence target).take 1
  | .all => request.allHitsAt sequence target

/-- The hits of a request; none where it does not compile. -/
def found (request : AnchorRequest) (classes : List Class) : List AnchorHit :=
  match request.compile with
  | .ok sequence => (request.targets classes).flatMap (request.hitsAt sequence)
  | .error _ => []

theorem hitsInMethod_eq (request : AnchorRequest) (sequence : MatchSequence) (owner : Class)
    (method : Method) :
    request.hitsInMethod sequence owner.name method = request.hitsAt sequence (owner, method) := by
  unfold hitsInMethod anchorsIn hitsAt
  cases request.cardinality with
  | first =>
      rw [method.locateFirst_eq_head?, ← List.take_one, List.map_take]
      rfl
  | all => rfl

theorem found_eq (request : AnchorRequest) {sequence : MatchSequence}
    (compiled : request.compile = .ok sequence) (classes : List Class) :
    request.found classes = (request.targets classes).flatMap (request.hitsAt sequence) := by
  rw [found, compiled]

theorem hits_eq_found {request : AnchorRequest} {sequence : MatchSequence}
    (compiled : request.compile = .ok sequence) (classes : List Class) :
    request.hits classes = .ok (request.found classes) := by
  have inMethod (owner : Class) : request.hitsInMethod sequence owner.name =
      fun method => request.hitsAt sequence (owner, method) :=
    funext (request.hitsInMethod_eq sequence owner)
  have inClass : request.hitsInClass sequence = fun owner =>
      ((owner.methods.filter request.isForMethod).map fun method => (owner, method)).flatMap
        (request.hitsAt sequence) := by
    funext owner
    rw [hitsInClass, inMethod, List.flatMap_map]
  simp only [hits, compiled, inClass, request.found_eq compiled, targets, List.flatMap_assoc]

/-- Requests that compile find their hits one after another, and miss the required ones that have
none. -/
theorem locateAll_eq {requests : List AnchorRequest}
    (compiles : ∀ request ∈ requests, ∃ sequence, request.compile = .ok sequence)
    (classes : List Class) :
    locateAll classes requests =
      .ok ⟨requests.flatMap (·.found classes),
        (requests.filter fun request =>
          (request.found classes).isEmpty && request.isRequired).map (·.id)⟩ := by
  induction requests with
  | nil => rfl
  | cons request rest ih =>
      obtain ⟨sequence, compiled⟩ := compiles request List.mem_cons_self
      have later := ih fun other member => compiles other (List.mem_cons_of_mem request member)
      rw [locateAll, hits_eq_found compiled, later]
      by_cases missed : ((request.found classes).isEmpty && request.isRequired) = true
      · simp only [missed, if_true, List.flatMap_cons, List.filter_cons_of_pos, List.map_cons]
      · simp only [missed, Bool.false_eq_true, if_false, List.flatMap_cons, not_false_eq_true,
          List.filter_cons_of_neg]

theorem mem_targets {request : AnchorRequest} {classes : List Class} {target : Class × Method} :
    target ∈ request.targets classes ↔
      (target.1 ∈ classes ∧ request.isForClass target.1 = true) ∧
        target.2 ∈ target.1.methods ∧ request.isForMethod target.2 = true := by
  obtain ⟨owner, method⟩ := target
  simp only [targets, List.mem_flatMap, List.mem_map, List.mem_filter, Prod.mk.injEq]
  constructor
  · rintro ⟨_, loaded, _, asked, rfl, rfl⟩
    exact ⟨loaded, asked⟩
  · rintro ⟨loaded, asked⟩
    exact ⟨owner, loaded, method, asked, rfl, rfl⟩

theorem exists_of_mem_hitsAt {request : AnchorRequest} {sequence : MatchSequence}
    {target : Class × Method} {hit : AnchorHit} (member : hit ∈ request.hitsAt sequence target) :
    ∃ anchor, hit = request.hitAt target anchor := by
  have among : hit ∈ request.allHitsAt sequence target := by
    unfold hitsAt at member
    cases cardinality : request.cardinality with
    | first =>
        rw [cardinality] at member
        exact List.mem_of_mem_take member
    | all =>
        rw [cardinality] at member
        exact member
  obtain ⟨anchor, _, rfl⟩ := List.mem_map.mp among
  exact ⟨anchor, rfl⟩

end AnchorRequest

/-- The hit goes by the id of the request and lies in a loaded method that the request asks for. -/
structure AnchorHit.IsFor (hit : AnchorHit) (request : AnchorRequest) (classes : List Class) :
    Prop where
  id : hit.id = request.id
  lies : ∃ owner ∈ classes, ∃ method ∈ owner.methods,
    TypeName.internal owner.name = TypeName.internal request.className ∧
      method.name = request.method ∧
      (∀ descriptor, request.descriptor = some descriptor → method.descriptor = descriptor) ∧
      hit.className = owner.name ∧ hit.methodName = method.name ∧
      hit.descriptor = method.descriptor

namespace AnchorRequest

theorem isFor_of_mem_found {request : AnchorRequest} {classes : List Class} {hit : AnchorHit}
    (member : hit ∈ request.found classes) : hit.IsFor request classes := by
  unfold found at member
  split at member
  · obtain ⟨⟨owner, method⟩, here, inside⟩ := List.mem_flatMap.mp member
    obtain ⟨⟨loaded, spelled⟩, declared, asked⟩ := mem_targets.mp here
    obtain ⟨anchor, rfl⟩ := exists_of_mem_hitsAt inside
    simp only [isForMethod, Bool.and_eq_true, beq_iff_eq, Option.all_eq_true] at asked
    have type := (TypeName.internal_eq_iff owner.name request.className).mpr spelled
    exact ⟨rfl, owner, loaded, method, declared, type, asked.1, asked.2, rfl, rfl, rfl⟩
  · cases member

theorem id_of_mem_found {request : AnchorRequest} {classes : List Class} {hit : AnchorHit}
    (member : hit ∈ request.found classes) : hit.id = request.id :=
  (isFor_of_mem_found member).id

/-- A request asked for all anchors instead of the first, or the other way round. -/
def counting (request : AnchorRequest) (cardinality : Cardinality) : AnchorRequest :=
  { request with cardinality := cardinality }

/-- A request asked for in one overload. -/
def narrowed (request : AnchorRequest) (descriptor : String) : AnchorRequest :=
  { request with descriptor := some descriptor }

theorem found_all {request : AnchorRequest} {sequence : MatchSequence}
    (compiled : request.compile = .ok sequence) (classes : List Class) :
    (request.counting .all).found classes =
      (request.targets classes).flatMap (request.allHitsAt sequence) :=
  (request.counting .all).found_eq compiled classes

theorem found_first {request : AnchorRequest} {sequence : MatchSequence}
    (compiled : request.compile = .ok sequence) (classes : List Class) :
    (request.counting .first).found classes =
      (request.targets classes).flatMap fun target =>
        (request.allHitsAt sequence target).take 1 :=
  (request.counting .first).found_eq compiled classes

/-- Whether a request finds anything does not depend on how many anchors it asks for. -/
theorem isEmpty_found_counting (request : AnchorRequest) (cardinality : Cardinality)
    (classes : List Class) :
    ((request.counting cardinality).found classes).isEmpty = (request.found classes).isEmpty := by
  cases compiled : request.compile with
  | error fault =>
      have refused : (request.counting cardinality).compile = .error fault := compiled
      rw [found, found, compiled, refused]
  | ok sequence =>
      have nothing (counted : Cardinality) :
          ((request.counting counted).found classes).isEmpty = true ↔
            ∀ target ∈ request.targets classes, request.allHitsAt sequence target = [] := by
        cases counted with
        | first =>
            rw [found_first compiled, List.isEmpty_iff, List.flatMap_eq_nil_iff]
            simp only [List.take_eq_nil_iff, Nat.one_ne_zero, false_or]
        | all => rw [found_all compiled, List.isEmpty_iff, List.flatMap_eq_nil_iff]
      exact Bool.eq_iff_iff.mpr ((nothing cardinality).trans (nothing request.cardinality).symm)

theorem targets_narrowed {request : AnchorRequest} (open_ : request.descriptor = none)
    (descriptor : String) (classes : List Class) :
    (request.narrowed descriptor).targets classes =
      (request.targets classes).filter (·.2.descriptor == descriptor) := by
  have asked : (request.narrowed descriptor).isForMethod = fun method =>
      method.descriptor == descriptor && request.isForMethod method := by
    funext method
    simp only [isForMethod, narrowed, open_, Option.all_some, Option.all_none, Bool.and_true]
    exact Bool.and_comm _ _
  have spelled : (request.narrowed descriptor).isForClass = request.isForClass := rfl
  simp only [targets, spelled, List.filter_flatMap, List.filter_map, Function.comp_def,
    List.filter_filter, asked]

/-- A request without a descriptor, given one, keeps exactly its hits in methods of that
descriptor. -/
theorem found_narrowed {request : AnchorRequest} (open_ : request.descriptor = none)
    (descriptor : String) (classes : List Class) :
    (request.narrowed descriptor).found classes =
      (request.found classes).filter (·.descriptor == descriptor) := by
  have same : (request.narrowed descriptor).compile = request.compile := rfl
  cases compiled : request.compile with
  | error fault =>
      rw [found, found, same, compiled]
      rfl
  | ok sequence =>
      have kept (target : Class × Method) :
          (request.hitsAt sequence target).filter (·.descriptor == descriptor) =
            if target.2.descriptor == descriptor then request.hitsAt sequence target else [] := by
        by_cases here : (target.2.descriptor == descriptor) = true
        · rw [if_pos here, List.filter_eq_self]
          intro hit member
          obtain ⟨anchor, rfl⟩ := exists_of_mem_hitsAt member
          exact here
        · rw [if_neg here, List.filter_eq_nil_iff]
          intro hit member
          obtain ⟨anchor, rfl⟩ := exists_of_mem_hitsAt member
          exact here
      have counted : (request.narrowed descriptor).hitsAt sequence = request.hitsAt sequence := rfl
      rw [(request.narrowed descriptor).found_eq (same.trans compiled), request.found_eq compiled,
        targets_narrowed open_, counted, List.filter_flatMap, flatMap_filter]
      simp only [kept]

end AnchorRequest

end MethodPatch
