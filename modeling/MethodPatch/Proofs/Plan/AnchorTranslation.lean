import MethodPatch.Plan.Anchors
import MethodPatch.Proofs.Matching.Compile
import MethodPatch.Proofs.Matching.Translation

set_option autoImplicit false

namespace MethodPatch

/-- The class with every method replaced. -/
def Class.mapMethods (view : Method → Method) (owner : Class) : Class :=
  { owner with methods := owner.methods.map view }

namespace AnchorRequest

theorem compile_eq_ok_iff (request : AnchorRequest) (sequence : MatchSequence) :
    request.compile = .ok sequence ↔ request.sequence.compile = .ok sequence := by
  unfold compile
  cases request.sequence.compile <;> simp

theorem anchorsIn_moved (request other : AnchorRequest) {sequence original : MatchSequence}
    {seen : Visit → Visit} {move : Anchor → Anchor} {owner : String} {method replaced : Method}
    (cardinality : other.cardinality = request.cardinality)
    (mirrors : sequence.Mirrors original seen move)
    (walk : replaced.visits owner = (method.visits owner).map seen) :
    other.anchorsIn sequence owner replaced =
      (request.anchorsIn original owner method).map move := by
  unfold anchorsIn
  rw [cardinality]
  cases request.cardinality with
  | first =>
      have located := Method.locateFirst_moved mirrors walk
      exact (congrArg Option.toList located).trans Option.toList_map
  | all => exact Method.locateAll_moved mirrors walk

/-- What the translation of requests and methods keeps: whatever a request tells classes and methods
apart by, and the anchors that it finds. -/
structure IsKeptBy (translate : AnchorRequest → AnchorRequest) (view : Method → Method) :
    Prop where
  id : ∀ request, (translate request).id = request.id
  isRequired : ∀ request, (translate request).isRequired = request.isRequired
  isForClass : ∀ (request : AnchorRequest) (owner : Class),
    (translate request).isForClass owner = request.isForClass owner
  isForMethod : ∀ request method,
    (translate request).isForMethod (view method) = request.isForMethod method
  name : ∀ method, (view method).name = method.name
  descriptor : ∀ method, (view method).descriptor = method.descriptor
  refused : ∀ request fault, request.compile = .error fault →
    (translate request).compile = .error fault
  compiled : ∀ request sequence, request.compile = .ok sequence →
    ∃ translated, (translate request).compile = .ok translated ∧
      ∀ owner method, (translate request).anchorsIn translated owner (view method) =
        request.anchorsIn sequence owner method

variable {translate : AnchorRequest → AnchorRequest} {view : Method → Method}

theorem IsKeptBy.hits (kept : IsKeptBy translate view) (request : AnchorRequest)
    (classes : List Class) :
    (translate request).hits (classes.map (Class.mapMethods view)) = request.hits classes := by
  unfold AnchorRequest.hits
  cases compiled : request.compile with
  | error fault => rw [kept.refused request fault compiled]
  | ok sequence =>
      obtain ⟨translated, success, anchors⟩ := kept.compiled request sequence compiled
      have chosen : (translate request).isForClass ∘ Class.mapMethods view =
          request.isForClass := by
        funext owner
        exact (kept.isForClass request (owner.mapMethods view))
      have inMethod (owner : String) (method : Method) :
          (translate request).hitsInMethod translated owner (view method) =
            request.hitsInMethod sequence owner method := by
        simp only [hitsInMethod, anchors, kept.id, kept.name, kept.descriptor]
      have inClass (owner : Class) :
          (translate request).hitsInClass translated (owner.mapMethods view) =
            request.hitsInClass sequence owner := by
        have methods : (translate request).isForMethod ∘ view = request.isForMethod := by
          funext method
          exact kept.isForMethod request method
        simp only [hitsInClass, Class.mapMethods, List.filter_map, List.flatMap_map, methods,
          inMethod]
      rw [success]
      simp only [List.filter_map, List.flatMap_map, chosen, inClass]

/-- Translated requests locate in translated classes what the requests locate in the classes. -/
theorem IsKeptBy.locateAll (kept : IsKeptBy translate view) (requests : List AnchorRequest)
    (classes : List Class) :
    AnchorRequest.locateAll (classes.map (Class.mapMethods view)) (requests.map translate) =
      AnchorRequest.locateAll classes requests := by
  induction requests with
  | nil => rfl
  | cons request rest ih =>
      simp only [List.map_cons, AnchorRequest.locateAll, kept.hits, kept.isRequired, kept.id, ih]

end AnchorRequest

end MethodPatch
