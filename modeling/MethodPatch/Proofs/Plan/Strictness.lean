import MethodPatch.Plan.Format
import MethodPatch.Proofs.Dump.Lenience

set_option autoImplicit false

namespace MethodPatch

open Json

def Criteria.shape : Shape := .flat record

def SequenceSpec.shape : Shape := .record record fun
  | "prefix" => .list Criteria.shape
  | "final" => Criteria.shape
  | _ => .leaf

def AnchorRequest.shape : Shape := .record record fun
  | "sequence" => SequenceSpec.shape
  | _ => .leaf

def OverrideRequest.shape : Shape := .flat record

def PatchPlan.shape : Shape := .record record fun
  | "anchors" => .list AnchorRequest.shape
  | "overridable" => .list OverrideRequest.shape
  | _ => .leaf

theorem ExpressionKind.ofJson?_edited : Ignores (Shape.leaf.Edited false) ofJson? :=
  ignores_asWordOf words

theorem FieldAccess.ofJson?_edited : Ignores (Shape.leaf.Edited false) ofJson? :=
  ignores_asWordOf words

theorem Cardinality.ofJson?_edited : Ignores (Shape.leaf.Edited false) ofJson? :=
  ignores_asWordOf words

theorem Criteria.ofJson?_edited : Ignores (shape.Edited false) ofJson? := by
  refine ignores_record (by decide) fun before after edited => ?_
  rw [(edited "kind" (by decide)).required ExpressionKind.ofJson?_edited,
    (edited "owner" (by decide)).optional (ignores_asOption ignores_asText),
    (edited "name" (by decide)).optional (ignores_asOption ignores_asText),
    (edited "descriptor" (by decide)).optional (ignores_asOption ignores_asText),
    (edited "access" (by decide)).optional (ignores_asOption FieldAccess.ofJson?_edited)]

theorem SequenceSpec.ofJson?_edited : Ignores (shape.Edited false) ofJson? := by
  refine ignores_record (by decide) fun before after edited => ?_
  rw [(edited "prefix" (by decide)).orElse [] (ignores_asList Criteria.ofJson?_edited),
    (edited "final" (by decide)).optional (ignores_asOption Criteria.ofJson?_edited)]

theorem AnchorRequest.ofJson?_edited : Ignores (shape.Edited false) ofJson? := by
  refine ignores_record (by decide) fun before after edited => ?_
  rw [(edited "id" (by decide)).required ignores_asText,
    (edited "class" (by decide)).required ignores_asText,
    (edited "method" (by decide)).required ignores_asText,
    (edited "descriptor" (by decide)).optional (ignores_asOption ignores_asText),
    (edited "cardinality" (by decide)).orElse Cardinality.first Cardinality.ofJson?_edited,
    (edited "required" (by decide)).orElse false ignores_asFlag,
    (edited "sequence" (by decide)).required SequenceSpec.ofJson?_edited]

theorem OverrideRequest.ofJson?_edited : Ignores (shape.Edited false) ofJson? := by
  refine ignores_record (by decide) fun before after edited => ?_
  rw [(edited "class" (by decide)).required ignores_asText,
    (edited "method" (by decide)).required ignores_asText,
    (edited "descriptor" (by decide)).required ignores_asText]

theorem PatchPlan.ofJson?_edited : Ignores (shape.Edited false) ofJson? := by
  refine ignores_record (by decide) fun before after edited => ?_
  rw [(edited "anchors" (by decide)).orElse [] (ignores_asList AnchorRequest.ofJson?_edited),
    (edited "overridable" (by decide)).orElse [] (ignores_asList OverrideRequest.ofJson?_edited)]

theorem Criteria.ofJson?_grown : Refuses shape.Grown ofJson? :=
  refuses_record rfl fun _ _ _ _ _ inner => nomatch inner

theorem SequenceSpec.ofJson?_grown : Refuses shape.Grown ofJson? := by
  refine refuses_record rfl fun slot key value grownValue given inner => ?_
  split at inner
  · have refused := refuses_asList Criteria.ofJson?_grown _ _ inner
    simp [given, Slot.orElse, refused]
  · have refused := refuses_asOption Criteria.ofJson?_grown _ _ inner
    simp [given, Slot.optional, Slot.orElse, refused]
  · cases inner

theorem AnchorRequest.ofJson?_grown : Refuses shape.Grown ofJson? := by
  refine refuses_record rfl fun slot key value grownValue given inner => ?_
  split at inner
  · have refused := SequenceSpec.ofJson?_grown _ _ inner
    simp [given, Slot.required, refused]
  · cases inner

theorem OverrideRequest.ofJson?_grown : Refuses shape.Grown ofJson? :=
  refuses_record rfl fun _ _ _ _ _ inner => nomatch inner

theorem PatchPlan.ofJson?_grown : Refuses shape.Grown ofJson? := by
  refine refuses_record rfl fun slot key value grownValue given inner => ?_
  split at inner
  · have refused := refuses_asList AnchorRequest.ofJson?_grown _ _ inner
    simp [given, Slot.orElse, refused]
  · have refused := refuses_asList OverrideRequest.ofJson?_grown _ _ inner
    simp [given, Slot.orElse, refused]
  · cases inner

/-- Whatever order the members stand in and whatever members its records are given besides, a value
is read as the same class or the same list of classes. The members of a plan may be put in another
order too, but with a member that one of its records does not know, at any depth, it is no plan. -/
theorem lenient_dumps_strict_plans :
    (∀ before after, Relation.ReflTransGen (Class.shape.Edited true) before after →
      Class.ofJson? after = Class.ofJson? before ∧
        ∀ owner, Class.ofJson? before = some owner → dumpOfJson? after = some [owner]) ∧
    (∀ before after, Relation.ReflTransGen ((Shape.list Class.shape).Edited true) before after →
      asList Class.ofJson? after = asList Class.ofJson? before ∧
        ∀ classes, asList Class.ofJson? before = some classes →
          dumpOfJson? after = some classes) ∧
    (∀ before after, Relation.ReflTransGen Reordered before after →
      PatchPlan.ofJson? after = PatchPlan.ofJson? before) ∧
    ∀ before after, PatchPlan.shape.Grown before after → PatchPlan.ofJson? after = none := by
  refine ⟨fun before after edits => ?_, fun before after edits => ?_, fun before after order => ?_,
    PatchPlan.ofJson?_grown⟩
  · have same := Class.ofJson?_edited.run edits
    refine ⟨same, fun owner read => ?_⟩
    rw [dumpOfJson?, same, read]
  · have same := (ignores_asList Class.ofJson?_edited).run edits
    exact ⟨same, fun classes listed => dumpOfJson?_of_list (same.trans listed)⟩
  · have ignores : Ignores Reordered PatchPlan.ofJson? := fun before after reordered =>
      PatchPlan.ofJson?_edited before after (.inl reordered)
    exact ignores.run order

/-- A class, alone and in a list, gets a comment in the site of a call and its name after its
methods. In a plan the demands of the last matcher change places, and then one is misspelled. -/
theorem lenient_dumps_strict_plans_misspelled :
    let site := [(some "owner", ofText "app/Hud"), (some "name", ofText "tick"),
      (some "descriptor", ofText "()V"), (some "kind", ofText "virtual"), (some "offset", ofNat 3)]
    let methods (site : List (Option String × Json)) : Json :=
      .array [.object [(some "name", ofText "loop"), (some "descriptor", ofText "()V"),
        (some "instructions", .array [.object [(some "offset", ofNat 3), (some "opcode", ofNat 182),
          (some "kind", .object [(some "invoke", .object site)])]])]]
    let dump := Json.object [(some "name", ofText "app/Hud"), (some "methods", methods site)]
    let commented := Json.object [(some "methods", methods ((some "comment", .null) :: site)),
      (some "name", ofText "app/Hud")]
    let owner : Class :=
      ⟨"app/Hud", none, false, [⟨"loop", "()V", .packagePrivate, [],
        [.encoding 3 (.invoke ⟨"app/Hud", "tick", "()V", .virtual, 3⟩)], [], []⟩], 0⟩
    let plan (last : List (Option String × Json)) : Json :=
      .object [(some "anchors", .array [.object [(some "id", ofText "tick"),
        (some "class", ofText "app.Hud"), (some "method", ofText "loop"),
        (some "sequence", .object [(some "final", .object last)])]])]
    let kind := (some "kind", ofText "method_call")
    let name := (some "name", ofText "tick")
    Class.ofJson? dump = some owner ∧ dumpOfJson? commented = some [owner] ∧
      dumpOfJson? (.array [commented]) = some [owner] ∧
      (PatchPlan.ofJson? (plan [kind, name])).isSome = true ∧
      PatchPlan.ofJson? (plan [name, kind]) = PatchPlan.ofJson? (plan [kind, name]) ∧
      PatchPlan.ofJson? (plan [(some "nmae", ofText "tick"), kind]) = none := by
  intro site methods dump commented owner plan kind name
  have read : Class.ofJson? dump = some owner := by decide +kernel
  have listed : asList Class.ofJson? (.array [dump]) = some [owner] := by
    simp only [asList, List.mapM_cons, read, List.mapM_nil]
    rfl
  have inMethods : (Shape.list Method.shape).Grown (methods site)
      (methods ((some "comment", .null) :: site)) :=
    @Shape.Grown.item _ [] [] _ _ (@Shape.Grown.member _ _ [_, _] [] "instructions" _ _ (by decide)
      (@Shape.Grown.item _ [] [] _ _ (@Shape.Grown.member _ _ [_, _] [] "kind" _ _ (by decide)
        (.content (@Shape.Grown.here _ _ [] site "comment" .null (by decide))))))
  have grown : Class.shape.Grown dump (.object [(some "name", ofText "app/Hud"),
      (some "methods", methods ((some "comment", .null) :: site))]) :=
    @Shape.Grown.member _ _ [_] [] "methods" _ _ (by decide) inMethods
  have swapped : Reordered (.object [(some "name", ofText "app/Hud"),
      (some "methods", methods ((some "comment", .null) :: site))]) commented :=
    .members (.swap _ _ _)
  have edits : Relation.ReflTransGen (Class.shape.Edited true) dump commented :=
    .tail (.single (.inr ⟨rfl, grown⟩)) (.inl swapped)
  have editsInList : Relation.ReflTransGen ((Shape.list Class.shape).Edited true) (.array [dump])
      (.array [commented]) :=
    .tail (.single (.inr ⟨rfl, @Shape.Grown.item _ [] [] _ _ grown⟩))
      (.inl (@Reordered.item [] [] _ _ swapped))
  have order : Reordered (plan [kind, name]) (plan [name, kind]) :=
    @Reordered.value [] [] _ _ _ (@Reordered.item [] [] _ _ (@Reordered.value [_, _, _] [] _ _ _
      (@Reordered.value [] [] _ _ _ (.members (.swap _ _ _)))))
  have misspelled : PatchPlan.shape.Grown (plan [kind])
      (plan [(some "nmae", ofText "tick"), kind]) :=
    @Shape.Grown.member _ _ [] [] "anchors" _ _ (by decide) (@Shape.Grown.item _ [] [] _ _
      (@Shape.Grown.member _ _ [_, _, _] [] "sequence" _ _ (by decide)
        (@Shape.Grown.member _ _ [] [] "final" _ _ (by decide)
          (@Shape.Grown.here _ _ [] [kind] "nmae" _ (by decide)))))
  obtain ⟨lenient, lenientInList, free, strict⟩ := lenient_dumps_strict_plans
  exact ⟨read, (lenient dump commented edits).2 owner read,
    (lenientInList _ _ editsInList).2 [owner] listed, by decide +kernel,
    free _ _ (.single order), strict _ _ misspelled⟩

end MethodPatch
