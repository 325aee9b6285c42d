import MethodPatch.Proofs.Plan.LocatedAnchors

set_option autoImplicit false

namespace MethodPatch

namespace AnchorRequest

/-- What is wrong with a request where these ids are taken: its own is one of them, or else its
sequence has no last matcher. -/
def faultAfter (taken : List String) (request : AnchorRequest) : Option PlanFault :=
  if request.id ∈ taken then some (.repeatedId request.id)
  else if request.sequence.last = none then
    some (.incompleteSequence request.id .missingFinalMatcher)
  else none

/-- What is wrong with the request at a place, where the ids before it are taken as well as those in
`seen`. -/
def faultAt (seen : List String) (requests : List AnchorRequest) (place : Nat) :
    Option PlanFault :=
  requests[place]?.bind (faultAfter ((requests.take place).map (·.id) ++ seen))

theorem compile_eq (request : AnchorRequest) :
    request.compile =
      match request.sequence.last with
      | some last => .ok (.ofCriteria request.sequence.before last)
      | none => .error (.incompleteSequence request.id .missingFinalMatcher) := by
  rw [compile, SequenceSpec.compile_eq]
  cases request.sequence.last <;> rfl

theorem exists_compile_iff (request : AnchorRequest) :
    (∃ sequence, request.compile = .ok sequence) ↔ request.sequence.last ≠ none := by
  rw [compile_eq]
  cases request.sequence.last with
  | none => simp
  | some last => simp

theorem validate_cons (seen : List String) (request : AnchorRequest) (rest : List AnchorRequest) :
    validate seen (request :: rest) =
      match request.faultAfter seen with
      | some fault => .error fault
      | none => validate (request.id :: seen) rest := by
  rw [validate, faultAfter, compile_eq]
  by_cases repeated : request.id ∈ seen
  · rw [if_pos repeated, if_pos repeated]
  · rw [if_neg repeated, if_neg repeated]
    cases request.sequence.last <;> rfl

theorem faultAfter_congr {taken others : List String} (same : ∀ id, id ∈ taken ↔ id ∈ others) :
    faultAfter taken = faultAfter others := by
  funext request
  simp only [faultAfter, same]

theorem faultAt_zero (seen : List String) (request : AnchorRequest) (rest : List AnchorRequest) :
    faultAt seen (request :: rest) 0 = request.faultAfter seen := rfl

theorem faultAt_succ (seen : List String) (request : AnchorRequest) (rest : List AnchorRequest)
    (place : Nat) :
    faultAt seen (request :: rest) (place + 1) = faultAt (request.id :: seen) rest place := by
  rw [faultAt, faultAt, List.getElem?_cons_succ, List.take_succ_cons, List.map_cons]
  congr 1
  apply faultAfter_congr
  intro id
  simp only [List.cons_append, List.mem_cons, List.mem_append]
  exact or_left_comm

/-- The check stops at the first request that is at fault. -/
theorem validate_eq_error_iff (seen : List String) (requests : List AnchorRequest)
    (fault : PlanFault) :
    validate seen requests = .error fault ↔
      ∃ place, faultAt seen requests place = some fault ∧
        ∀ earlier < place, faultAt seen requests earlier = none := by
  induction requests generalizing seen with
  | nil => simp [validate, faultAt]
  | cons request rest ih =>
      have first := faultAt_zero seen request rest
      have later := faultAt_succ seen request rest
      rw [validate_cons]
      cases here : request.faultAfter seen with
      | some found =>
          rw [here] at first
          constructor
          · intro failed
            cases failed
            exact ⟨0, first, fun _ before => absurd before (Nat.not_lt_zero _)⟩
          · rintro ⟨place, located, earlier⟩
            cases place with
            | zero =>
                rw [first] at located
                exact congrArg Except.error (Option.some.inj located)
            | succ place =>
                rw [earlier 0 (Nat.succ_pos place)] at first
                cases first
      | none =>
          -- The first request is sound, so a place in the rest is one further in the whole list.
          rw [here] at first
          simp only [ih]
          constructor
          · rintro ⟨place, located, earlier⟩
            refine ⟨place + 1, (later place).trans located, fun before less => ?_⟩
            cases before with
            | zero => exact first
            | succ before => exact (later before).trans (earlier before (by omega))
          · rintro ⟨place, located, earlier⟩
            cases place with
            | zero =>
                rw [first] at located
                cases located
            | succ place =>
                refine ⟨place, (later place).symm.trans located, fun before less => ?_⟩
                exact (later before).symm.trans (earlier (before + 1) (by omega))

end AnchorRequest

namespace PatchPlan

/-- A plan passes the check exactly when its ids are distinct and every sequence has a last matcher.
Otherwise it fails with the fault of the first request, in the order of the plan, that repeats an id
before it or has no last matcher; where one request does both, the repeated id is its fault. A plan
that passes locates anchors in any classes, as they were loaded or as its overrides leave them.
A sequence compiles to the matchers of its criteria, in their order, and of its last one. -/
theorem validate_finds_first_fault (plan : PatchPlan) :
    (plan.validate = .ok () ↔
      (plan.anchors.map (·.id)).Nodup ∧
        ∀ request ∈ plan.anchors, request.sequence.last ≠ none) ∧
    (∀ fault, plan.validate = .error fault ↔
      ∃ place, AnchorRequest.faultAt [] plan.anchors place = some fault ∧
        ∀ earlier < place, AnchorRequest.faultAt [] plan.anchors earlier = none) ∧
    (plan.validate = .ok () →
      ∀ classes, ∃ located, plan.locateAnchors classes = .ok located) ∧
    ∀ (request : AnchorRequest) (sequence : MatchSequence),
      request.compile = .ok sequence ↔
        ∃ last, request.sequence.last = some last ∧
          sequence.before = request.sequence.before.map Criteria.matcher ∧
          sequence.last = last.matcher := by
  refine ⟨?_, fun fault => AnchorRequest.validate_eq_error_iff [] plan.anchors fault, ?_, ?_⟩
  · rw [validate_eq_ok_iff]
    constructor
    · rintro ⟨distinct, compiles⟩
      exact ⟨distinct, fun request member =>
        request.exists_compile_iff.mp (compiles request member)⟩
    · rintro ⟨distinct, complete⟩
      exact ⟨distinct, fun request member =>
        request.exists_compile_iff.mpr (complete request member)⟩
  · intro passed classes
    exact ⟨_, ((validate_eq_ok_iff plan).mp passed).locateAnchors_eq classes⟩
  · intro request sequence
    rw [request.compile_eq_ok_iff, SequenceSpec.compile_eq_ok_iff]
    obtain ⟨before, last⟩ := sequence
    simp only [MatchSequence.ofCriteria, MatchSequence.mk.injEq]

/-- A plan that passes, and one whose second request is at fault in both ways and its third in one.
-/
theorem validate_finds_first_fault_of_two :
    let drawing (id : String) : AnchorRequest :=
      ⟨id, "app.Hud", "render", none, .all, true, ⟨[], some (.methodCall "draw")⟩⟩
    let unfinished (id : String) : AnchorRequest :=
      ⟨id, "app.Hud", "render", none, .all, true, ⟨[.methodCall "draw"], none⟩⟩
    let sound : PatchPlan := ⟨[drawing "a", drawing "b"], []⟩
    let faulty : PatchPlan := ⟨[drawing "a", unfinished "a", unfinished "b"], []⟩
    let render : Method := ⟨"render", "()V", .packagePrivate, [],
      [.encoding 0 (.invoke ⟨"app/Hud", "draw", "()V", .virtual, 0⟩)], [], []⟩
    sound.validate = .ok () ∧
      (∃ located, sound.locateAnchors [⟨"app/Hud", none, false, [render], 0⟩] = .ok located) ∧
      AnchorRequest.faultAt [] faulty.anchors 2 =
        some (.incompleteSequence "b" .missingFinalMatcher) ∧
      faulty.validate = .error (.repeatedId "a") := by
  intro drawing unfinished sound faulty render
  have passed : sound.validate = .ok () := by decide +kernel
  obtain ⟨-, -, locates, -⟩ := validate_finds_first_fault sound
  obtain ⟨-, first, -, -⟩ := validate_finds_first_fault faulty
  have repeated : AnchorRequest.faultAt [] faulty.anchors 1 = some (.repeatedId "a") := by
    decide +kernel
  have earlier : ∀ place < 1, AnchorRequest.faultAt [] faulty.anchors place = none := by
    decide +kernel
  exact ⟨passed, locates passed _, by decide +kernel, (first _).mpr ⟨1, repeated, earlier⟩⟩

end PatchPlan

end MethodPatch
