import MethodPatch.Matching.Format
import MethodPatch.Plan.Basic

set_option autoImplicit false

namespace MethodPatch

open Json

namespace Cardinality

def label : Cardinality → String
  | .first => "first"
  | .all => "all"

def words : List (String × Cardinality) :=
  [.first, .all].map fun cardinality => (label cardinality, cardinality)

def ofJson? (value : Json) : Option Cardinality := asWordOf words value

end Cardinality

namespace AnchorRequest

def record : Record :=
  ⟨["id", "class", "method", "descriptor", "cardinality", "required", "sequence"], true⟩

def ofJson? (value : Json) : Option AnchorRequest := do
  let slot ← record.slots? value
  let id ← (slot "id").required asText
  let className ← (slot "class").required asText
  let method ← (slot "method").required asText
  let descriptor ← (slot "descriptor").optional asText
  let cardinality ← (slot "cardinality").orElse Cardinality.first Cardinality.ofJson?
  let isRequired ← (slot "required").orElse false asFlag
  let sequence ← (slot "sequence").required SequenceSpec.ofJson?
  return ⟨id, className, method, descriptor, cardinality, isRequired, sequence⟩

end AnchorRequest

namespace OverrideRequest

def record : Record := ⟨["class", "method", "descriptor"], true⟩

def ofJson? (value : Json) : Option OverrideRequest := do
  let slot ← record.slots? value
  let className ← (slot "class").required asText
  let method ← (slot "method").required asText
  let descriptor ← (slot "descriptor").required asText
  return ⟨className, method, descriptor⟩

end OverrideRequest

namespace PatchPlan

def record : Record := ⟨["anchors", "overridable"], true⟩

def ofJson? (value : Json) : Option PatchPlan := do
  let slot ← record.slots? value
  let anchors ← (slot "anchors").orElse [] (asList AnchorRequest.ofJson?)
  let overrides ← (slot "overridable").orElse [] (asList OverrideRequest.ofJson?)
  return ⟨anchors, overrides⟩

end PatchPlan

end MethodPatch
