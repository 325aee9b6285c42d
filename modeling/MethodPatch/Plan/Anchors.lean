import MethodPatch.Failure
import MethodPatch.Matching.Finder

set_option autoImplicit false

namespace MethodPatch

/-- An anchor found for a request. -/
structure AnchorHit where
  id : String
  className : String
  methodName : String
  descriptor : String
  anchor : Anchor
deriving DecidableEq, Repr

/-- The anchors found, and the ids of the required requests without any. -/
structure LocatedAnchors where
  hits : List AnchorHit
  missing : List String
deriving DecidableEq, Repr

namespace AnchorRequest

def isForClass (request : AnchorRequest) (owner : Class) : Bool :=
  TypeName.same owner.name request.className

def isForMethod (request : AnchorRequest) (method : Method) : Bool :=
  method.name == request.method && request.descriptor.all (method.descriptor == ·)

/-- The anchors of a sequence in one method, as many as are asked for. -/
def anchorsIn (request : AnchorRequest) (sequence : MatchSequence) (owner : String)
    (method : Method) : List Anchor :=
  match request.cardinality with
  | .first => (method.locateFirst owner sequence).toList
  | .all => method.locateAll owner sequence

def hitsInMethod (request : AnchorRequest) (sequence : MatchSequence) (owner : String)
    (method : Method) : List AnchorHit :=
  (request.anchorsIn sequence owner method).map fun anchor =>
    ⟨request.id, owner, method.name, method.descriptor, anchor⟩

def hitsInClass (request : AnchorRequest) (sequence : MatchSequence) (owner : Class) :
    List AnchorHit :=
  (owner.methods.filter request.isForMethod).flatMap (request.hitsInMethod sequence owner.name)

/-- The hits of a request, class by class and method by method. -/
def hits (request : AnchorRequest) (classes : List Class) : Except Failure (List AnchorHit) :=
  match request.compile with
  | .error fault => .error (.faultyRequest fault)
  | .ok sequence =>
      .ok ((classes.filter request.isForClass).flatMap (request.hitsInClass sequence))

/-- The hits of requests in order. -/
def locateAll (classes : List Class) : List AnchorRequest → Except Failure LocatedAnchors
  | [] => .ok ⟨[], []⟩
  | request :: rest =>
      match request.hits classes with
      | .error failure => .error failure
      | .ok found =>
          match locateAll classes rest with
          | .error failure => .error failure
          | .ok later =>
              .ok ⟨found ++ later.hits,
                if found.isEmpty && request.isRequired then request.id :: later.missing
                else later.missing⟩

end AnchorRequest

def PatchPlan.locateAnchors (plan : PatchPlan) (classes : List Class) :
    Except Failure LocatedAnchors :=
  AnchorRequest.locateAll classes plan.anchors

end MethodPatch
