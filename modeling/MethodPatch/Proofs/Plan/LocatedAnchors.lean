import MethodPatch.Proofs.Plan.AnchorHits

set_option autoImplicit false

namespace MethodPatch

namespace PatchPlan

/-- The ids of the required requests that none of these hits goes back to, in the order of the
plan. -/
def unmet (plan : PatchPlan) (hits : List AnchorHit) : List String :=
  (plan.anchors.filter fun request =>
    request.isRequired && hits.all (·.id != request.id)).map (·.id)

/-- The plan with no anchor required. -/
def relaxed (plan : PatchPlan) : PatchPlan :=
  { plan with anchors := plan.anchors.map fun request => { request with isRequired := false } }

namespace IsValid

variable {plan : PatchPlan} {front back : List AnchorRequest} {request other : AnchorRequest}

theorem eq_of_id (valid : plan.IsValid) (member : request ∈ plan.anchors)
    (otherMember : other ∈ plan.anchors) (same : other.id = request.id) : other = request :=
  List.inj_on_of_nodup_map valid.distinct otherMember member same

theorem locateAnchors_eq (valid : plan.IsValid) (classes : List Class) :
    plan.locateAnchors classes =
      .ok ⟨plan.anchors.flatMap (·.found classes),
        (plan.anchors.filter fun request =>
          (request.found classes).isEmpty && request.isRequired).map (·.id)⟩ :=
  AnchorRequest.locateAll_eq valid.compiles classes

/-- A request has hits exactly when some hit of the plan goes by its id. -/
theorem isEmpty_found (valid : plan.IsValid) (member : request ∈ plan.anchors)
    (classes : List Class) :
    (request.found classes).isEmpty =
      (plan.anchors.flatMap (·.found classes)).all (·.id != request.id) := by
  rw [Bool.eq_iff_iff, List.isEmpty_iff, List.all_eq_true]
  constructor
  · intro none hit among
    obtain ⟨other, otherMember, found⟩ := List.mem_flatMap.mp among
    have id := AnchorRequest.id_of_mem_found found
    rw [bne_iff_ne, id]
    intro same
    rw [valid.eq_of_id member otherMember same, none] at found
    cases found
  · intro apart
    rw [List.eq_nil_iff_forall_not_mem]
    intro hit found
    have id := AnchorRequest.id_of_mem_found found
    have other := apart hit (List.mem_flatMap.mpr ⟨request, member, found⟩)
    exact absurd id (bne_iff_ne.mp other)

theorem missing_eq_unmet (valid : plan.IsValid) (classes : List Class) :
    (plan.anchors.filter fun request =>
      (request.found classes).isEmpty && request.isRequired).map (·.id) =
        plan.unmet (plan.anchors.flatMap (·.found classes)) := by
  rw [unmet]
  congr 1
  apply List.filter_congr
  intro request member
  rw [valid.isEmpty_found member, Bool.and_comm]

theorem relaxed (valid : plan.IsValid) : plan.relaxed.IsValid where
  distinct := by
    rw [PatchPlan.relaxed, List.map_map]
    exact valid.distinct
  compiles := by
    intro request member
    obtain ⟨strict, asked, rfl⟩ := List.mem_map.mp member
    exact valid.compiles strict asked

/-- A plan that requires no anchor locates the same ones and misses none. -/
theorem locateAnchors_relaxed (valid : plan.IsValid) (classes : List Class) :
    plan.relaxed.locateAnchors classes = .ok ⟨plan.anchors.flatMap (·.found classes), []⟩ := by
  have nothing : (plan.relaxed.anchors.filter fun request =>
      (request.found classes).isEmpty && request.isRequired) = [] := by
    rw [List.filter_eq_nil_iff]
    intro request member
    obtain ⟨strict, asked, rfl⟩ := List.mem_map.mp member
    simp only [Bool.and_false, Bool.false_eq_true, not_false_eq_true]
  rw [valid.relaxed.locateAnchors_eq, nothing, List.map_nil, PatchPlan.relaxed, List.flatMap_map]
  rfl

/-- Every hit goes back to one request and to no other. -/
theorem isFor_of_mem_hits (valid : plan.IsValid) {classes : List Class} {hit : AnchorHit}
    (member : hit ∈ plan.anchors.flatMap (·.found classes)) :
    ∃ request ∈ plan.anchors, hit.IsFor request classes ∧
      ∀ other ∈ plan.anchors, other.id = hit.id → other = request := by
  obtain ⟨request, asked, found⟩ := List.mem_flatMap.mp member
  have isFor := AnchorRequest.isFor_of_mem_found found
  exact ⟨request, asked, isFor, fun other otherAsked same =>
    valid.eq_of_id asked otherAsked (same.trans isFor.id)⟩

theorem id_ne_around (valid : plan.IsValid) (anchors : plan.anchors = front ++ request :: back) :
    ∀ other ∈ front ++ back, other.id ≠ request.id := by
  have distinct := valid.distinct
  rw [anchors, List.map_append, List.map_cons, List.nodup_middle, List.nodup_cons] at distinct
  intro other member same
  rw [← List.map_append] at distinct
  exact distinct.1 (same ▸ List.mem_map_of_mem member)

theorem hit_id_ne_around (valid : plan.IsValid) (anchors : plan.anchors = front ++ request :: back)
    (classes : List Class) :
    ∀ hit ∈ front.flatMap (·.found classes) ++ back.flatMap (·.found classes),
      hit.id ≠ request.id := by
  intro hit member
  rw [← List.flatMap_append] at member
  obtain ⟨other, around, found⟩ := List.mem_flatMap.mp member
  rw [AnchorRequest.id_of_mem_found found]
  exact valid.id_ne_around anchors other around

/-- With one request replaced, the hits of the others stand where they stood. -/
theorem locateAnchors_replace (valid : plan.IsValid) (other : AnchorRequest)
    (anchors : plan.anchors = front ++ request :: back) (id : other.id = request.id)
    (sequence : other.sequence = request.sequence) (classes : List Class) :
    { plan with anchors := front ++ other :: back }.locateAnchors classes =
      .ok ⟨front.flatMap (·.found classes) ++ other.found classes ++
          back.flatMap (·.found classes),
        ((front ++ other :: back).filter fun request =>
          (request.found classes).isEmpty && request.isRequired).map (·.id)⟩ := by
  rw [(valid.replace anchors id sequence).locateAnchors_eq, List.flatMap_append,
    List.flatMap_cons, List.append_assoc]

/-- A replaced request is missed as before if it is required as before and finds something as
before. -/
theorem missing_replace (other : AnchorRequest)
    (anchors : plan.anchors = front ++ request :: back) {classes : List Class}
    (id : other.id = request.id)
    (required : other.isRequired = request.isRequired)
    (nothing : (other.found classes).isEmpty = (request.found classes).isEmpty) :
    ((front ++ other :: back).filter fun request =>
        (request.found classes).isEmpty && request.isRequired).map (·.id) =
      (plan.anchors.filter fun request =>
        (request.found classes).isEmpty && request.isRequired).map (·.id) := by
  rw [anchors, List.filter_append, List.filter_append, List.filter_cons, List.filter_cons,
    nothing, required]
  split
  · simp only [List.map_append, List.map_cons, id]
  · rfl

/-- Asked for another number of anchors, a request has its first anchors or all of them; the hits of
the others and what is missed stay. -/
theorem locateAnchors_counting (valid : plan.IsValid)
    (anchors : plan.anchors = front ++ request :: back) (cardinality : Cardinality)
    (classes : List Class) :
    { plan with anchors := front ++ request.counting cardinality :: back }.locateAnchors classes =
      .ok ⟨front.flatMap (·.found classes) ++ (request.counting cardinality).found classes ++
          back.flatMap (·.found classes),
        plan.unmet (plan.anchors.flatMap (·.found classes))⟩ := by
  rw [valid.locateAnchors_replace (request.counting cardinality) anchors rfl rfl,
    missing_replace (request.counting cardinality) anchors rfl rfl
      (request.isEmpty_found_counting cardinality classes),
    valid.missing_eq_unmet]

/-- Given a descriptor, a request keeps its hits in methods of that descriptor; the others keep all
of theirs. -/
theorem hits_narrowed (valid : plan.IsValid) (anchors : plan.anchors = front ++ request :: back)
    (open_ : request.descriptor = none) (descriptor : String) (classes : List Class) :
    front.flatMap (·.found classes) ++ (request.narrowed descriptor).found classes ++
        back.flatMap (·.found classes) =
      (plan.anchors.flatMap (·.found classes)).filter fun hit =>
        hit.id != request.id || hit.descriptor == descriptor := by
  have apart := valid.hit_id_ne_around anchors classes
  have others {hits : List AnchorHit} (different : ∀ hit ∈ hits, hit.id ≠ request.id) :
      hits.filter (fun hit => hit.id != request.id || hit.descriptor == descriptor) = hits := by
    rw [List.filter_eq_self]
    intro hit member
    rw [bne_iff_ne.mpr (different hit member), Bool.true_or]
  have own : (request.found classes).filter (fun hit =>
      hit.id != request.id || hit.descriptor == descriptor) =
        (request.found classes).filter (·.descriptor == descriptor) := by
    apply List.filter_congr
    intro hit member
    rw [AnchorRequest.id_of_mem_found member, bne_self_eq_false, Bool.false_or]
  rw [anchors, List.flatMap_append, List.flatMap_cons, List.filter_append, List.filter_append,
    others fun hit member => apart hit (List.mem_append_left _ member),
    others fun hit member => apart hit (List.mem_append_right _ member), own,
    AnchorRequest.found_narrowed open_, List.append_assoc]

end IsValid

/-- What a loaded plan locates is consistent. Every hit goes back to exactly one request, by its id,
and lies in a loaded method that this request asks for; the plan misses exactly the required
requests that no hit goes back to. Whether a request asks for the first anchor of a method or for
all, the hits of the others and what is missed are the same, and its own hits are all anchors of
each method that it looks at, or the first of each. A request without a descriptor that is given one
keeps exactly its hits in methods of that descriptor. -/
theorem locateAnchors_consistent (files : FileSystem) (path : String) (plan : PatchPlan)
    (classes : List Class) (loaded : PatchPlan.load files path = .ok plan) :
    ∃ located, plan.locateAnchors classes = .ok located ∧
      (∀ hit ∈ located.hits, ∃ request ∈ plan.anchors, hit.IsFor request classes ∧
        ∀ other ∈ plan.anchors, other.id = hit.id → other = request) ∧
      located.missing = plan.unmet located.hits ∧
      ∀ front request back, plan.anchors = front ++ request :: back →
        (∃ sequence earlier later, request.compile = .ok sequence ∧
          (∀ hit ∈ earlier ++ later, hit.id ≠ request.id) ∧
          { plan with anchors := front ++ request.counting .all :: back }.locateAnchors classes =
            .ok ⟨earlier ++ (request.targets classes).flatMap (request.allHitsAt sequence) ++ later,
              located.missing⟩ ∧
          { plan with anchors := front ++ request.counting .first :: back }.locateAnchors classes =
            .ok ⟨earlier ++ (request.targets classes).flatMap (fun target =>
              (request.allHitsAt sequence target).take 1) ++ later, located.missing⟩) ∧
        (request.descriptor = none → ∀ descriptor, ∃ narrowed,
          { plan with anchors := front ++ request.narrowed descriptor :: back }.locateAnchors
            classes = .ok narrowed ∧
          narrowed.hits = located.hits.filter fun hit =>
            hit.id != request.id || hit.descriptor == descriptor) := by
  have valid := isValid_of_load loaded
  have located := valid.locateAnchors_eq classes
  rw [valid.missing_eq_unmet classes] at located
  refine ⟨_, located, fun hit member => valid.isFor_of_mem_hits member, rfl, ?_⟩
  intro front request back anchors
  constructor
  · obtain ⟨sequence, compiled⟩ := valid.compiles request (by simp [anchors])
    refine ⟨sequence, front.flatMap (·.found classes), back.flatMap (·.found classes), compiled,
      valid.hit_id_ne_around anchors classes, ?_, ?_⟩
    · rw [valid.locateAnchors_counting anchors .all, AnchorRequest.found_all compiled]
    · rw [valid.locateAnchors_counting anchors .first, AnchorRequest.found_first compiled]
  · intro open_ descriptor
    refine ⟨_, valid.locateAnchors_replace (request.narrowed descriptor) anchors rfl rfl classes, ?_⟩
    exact valid.hits_narrowed anchors open_ descriptor classes

/-- Two classes of one name in two spellings, an overloaded method that makes a call twice, and a
request that nothing meets. -/
theorem locateAnchors_consistent_overloads :
    let text :=
      "[[[\"tick\",\"app.Hud\",\"run\",null,\"first\",true,[[],[\"method_call\",null,\"tick\"]]]," ++
        "[\"draw\",\"app/Hud\",\"run\",null,\"all\",true,[[],[\"method_call\",null,\"draw\"]]]]]"
    let files : FileSystem := ⟨.directory [("plan.json", .file (Text.bytes text))], []⟩
    let tick : AnchorRequest :=
      ⟨"tick", "app.Hud", "run", none, .first, true, ⟨[], some (.methodCall "tick")⟩⟩
    let draw : AnchorRequest :=
      ⟨"draw", "app/Hud", "run", none, .all, true, ⟨[], some (.methodCall "draw")⟩⟩
    let plan : PatchPlan := ⟨[tick, draw], []⟩
    let call (offset : UInt32) : Instruction :=
      .encoding offset (.invoke ⟨"app/Hud", "tick", "()V", .virtual, offset⟩)
    let method (descriptor : String) (calls : List Instruction) : Method :=
      ⟨"run", descriptor, .packagePrivate, [], calls, [], []⟩
    let classes : List Class :=
      [⟨"app/Hud", none, false, [method "()V" [call 0, call 3], method "(I)V" [call 5]], 0⟩,
        ⟨"app.Hud", none, false, [method "()V" [call 7, call 9]], 1⟩]
    load files "plan.json" = .ok plan ∧
      (∃ located, plan.locateAnchors classes = .ok located ∧
        located.hits.map (·.anchor.offset) = [0, 5, 7] ∧ located.missing = ["draw"]) ∧
      (∃ hits, { plan with anchors := [tick.counting .all, draw] }.locateAnchors classes =
        .ok ⟨hits, ["draw"]⟩) ∧
      ∃ narrowed, { plan with anchors := [tick.narrowed "()V", draw] }.locateAnchors classes =
        .ok narrowed ∧ narrowed.hits.map (·.anchor.offset) = [0, 7] := by
  intro text files tick draw plan call method classes
  have loaded : load files "plan.json" = .ok plan := by decide +kernel
  have hits : plan.locateAnchors classes =
      .ok ⟨[⟨"tick", "app/Hud", "run", "()V", ⟨0, none, .methodCall⟩⟩,
        ⟨"tick", "app/Hud", "run", "(I)V", ⟨5, none, .methodCall⟩⟩,
        ⟨"tick", "app.Hud", "run", "()V", ⟨7, none, .methodCall⟩⟩], ["draw"]⟩ := by
    decide +kernel
  obtain ⟨located, ran, -, -, changed⟩ :=
    locateAnchors_consistent files "plan.json" plan classes loaded
  obtain rfl := Except.ok.inj (hits.symm.trans ran)
  obtain ⟨⟨sequence, earlier, later, -, -, all, -⟩, descriptors⟩ := changed [] tick [draw] rfl
  obtain ⟨narrowed, reran, kept⟩ := descriptors rfl "()V"
  exact ⟨loaded, ⟨_, ran, rfl, rfl⟩, ⟨_, all⟩, narrowed, reran, kept ▸ rfl⟩

end PatchPlan

end MethodPatch
