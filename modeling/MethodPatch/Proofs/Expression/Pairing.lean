import MethodPatch.Expression.Walk
import Mathlib.Data.Nat.SuccPred
import Mathlib.Data.Set.Insert
import Mathlib.Order.SuccPred.Archimedean

set_option autoImplicit false

namespace MethodPatch

namespace Operation

/-- The type that an operation allocates. -/
def allocated? : Operation → Option String
  | .newObject type => some type
  | _ => none

/-- The type whose initializer an operation calls. -/
def initialized? : Operation → Option String
  | .invoke call => if call.isConstructor then some call.owner else none
  | _ => none

theorem initialized?_of_allocated? {operation : Operation} {type : String}
    (allocates : operation.allocated? = some type) : operation.initialized? = none := by
  cases operation with
  | newObject type => rfl
  | _ => cases allocates

@[simp] theorem completed?_nil (operation : Operation) : operation.completed? [] = none := by
  cases operation <;> rfl

/-- The innermost allocation is completed if the initializer of its type is called. -/
theorem completed?_cons (operation : Operation) (innermost : Allocation)
    (rest : List Allocation) :
    operation.completed? (innermost :: rest) =
      if operation.initialized?.any (TypeName.same innermost.type) then some innermost
      else none := by
  cases operation with
  | invoke call =>
      rw [completed?, initialized?]
      by_cases constructor : call.isConstructor = true
      · rw [constructor, Bool.true_and]
        rfl
      · rw [Bool.not_eq_true] at constructor
        rw [constructor, Bool.false_and]
        rfl
  | _ => rfl

theorem openedAfter_of_allocated? {operation : Operation} {type : String}
    (allocates : operation.allocated? = some type) (offset : UInt32) (opened : List Allocation) :
    operation.openedAfter offset opened = ⟨type, offset⟩ :: opened := by
  cases operation with
  | newObject type =>
      cases allocates
      rfl
  | _ => cases allocates

theorem openedAfter_of_allocated?_none {operation : Operation}
    (idle : operation.allocated? = none) (offset : UInt32) (opened : List Allocation) :
    operation.openedAfter offset opened =
      if (operation.completed? opened).isSome then opened.tail else opened := by
  cases operation with
  | newObject type => cases idle
  | _ => rfl

end Operation

namespace Method

/-- What the instruction at `place` allocates. -/
def allocation? (method : Method) (place : Nat) : Option Allocation :=
  method.instructions[place]?.bind fun instruction =>
    instruction.operation.allocated?.map fun type => ⟨type, instruction.offset⟩

/-- The type whose initializer the instruction at `place` calls. -/
def initialized? (method : Method) (place : Nat) : Option String :=
  method.instructions[place]?.bind fun instruction => instruction.operation.initialized?

/-- The instruction at `call` calls the initializer of the type that the one at `allocated`
allocates. -/
def fits (method : Method) (allocated call : Nat) : Bool :=
  (method.allocation? allocated).any fun allocation =>
    (method.initialized? call).any (TypeName.same allocation.type)

/-- The allocations before `place` that no call before `place` completes. -/
def pending (method : Method) (pairs : Set (Nat × Nat)) (place : Nat) : Set Nat :=
  {allocated | allocated < place ∧ (method.allocation? allocated).isSome = true ∧
    ∀ call < place, (allocated, call) ∉ pairs}

/-- Every call completes the last pending allocation if the types agree, and none otherwise. -/
def PairsInnermost (method : Method) (pairs : Set (Nat × Nat)) : Prop :=
  ∀ allocated call, (allocated, call) ∈ pairs ↔
    IsGreatest (method.pending pairs call) allocated ∧ method.fits allocated call = true

/-- The place of the allocation that the instruction at `place` completes, given the places of the
open ones innermost first. -/
def completedPlace? (method : Method) (opened : List Nat) (place : Nat) : Option Nat :=
  opened.head?.filter (method.fits · place)

/-- The places of the allocations that are open before `place`, innermost first. -/
def openPlaces (method : Method) : Nat → List Nat
  | 0 => []
  | place + 1 =>
      if (method.allocation? place).isSome then place :: method.openPlaces place
      else if (method.completedPlace? (method.openPlaces place) place).isSome then
        (method.openPlaces place).tail
      else method.openPlaces place

/-- The places of the allocations and of the calls that complete them in the walk. -/
def pairs (method : Method) : Set (Nat × Nat) :=
  {pair | method.completedPlace? (method.openPlaces pair.2) pair.2 = some pair.1}

variable {method : Method} {pairs : Set (Nat × Nat)}

theorem fits_iff (method : Method) (allocated call : Nat) :
    method.fits allocated call = true ↔
      ∃ allocation, method.allocation? allocated = some allocation ∧
        ∃ type, method.initialized? call = some type ∧
          TypeName.same allocation.type type = true := by
  rw [fits, Option.any_eq_true]
  simp only [Option.any_eq_true]

theorem isSome_allocation?_of_fits {allocated call : Nat}
    (fits : method.fits allocated call = true) : (method.allocation? allocated).isSome = true := by
  obtain ⟨allocation, allocates, _⟩ := (method.fits_iff allocated call).mp fits
  exact Option.isSome_iff_exists.mpr ⟨allocation, allocates⟩

theorem isSome_initialized?_of_fits {allocated call : Nat}
    (fits : method.fits allocated call = true) : (method.initialized? call).isSome = true := by
  obtain ⟨_, _, type, initializes, _⟩ := (method.fits_iff allocated call).mp fits
  exact Option.isSome_iff_exists.mpr ⟨type, initializes⟩

/-- No instruction both allocates and calls an initializer. -/
theorem initialized?_of_isSome_allocation? {place : Nat}
    (allocates : (method.allocation? place).isSome = true) :
    method.initialized? place = none := by
  rw [allocation?] at allocates
  rw [initialized?]
  cases here : method.instructions[place]? with
  | none => rfl
  | some instruction =>
      rw [here, Option.bind_some, Option.isSome_map] at allocates
      obtain ⟨type, allocates⟩ := Option.isSome_iff_exists.mp allocates
      exact Operation.initialized?_of_allocated? allocates

/-- Of pending allocations, if there are any, one is the last. -/
theorem exists_isGreatest_of_pending {place : Nat} {places : Set Nat}
    (waiting : places ⊆ method.pending pairs place) (nonempty : places.Nonempty) :
    ∃ last, IsGreatest places last :=
  BddAbove.exists_isGreatest_of_nonempty
    ⟨place, fun _ member => Nat.le_of_lt (waiting member).1⟩ nonempty

/-- What is pending depends on the earlier calls alone. -/
theorem pending_congr {other : Set (Nat × Nat)} {place : Nat}
    (agree : ∀ allocated, ∀ call < place,
      (allocated, call) ∈ pairs ↔ (allocated, call) ∈ other) :
    method.pending pairs place = method.pending other place := by
  ext allocated
  refine and_congr_right fun _ => and_congr_right fun _ => ?_
  exact forall_congr' fun call => forall_congr' fun less => not_congr (agree allocated call less)

/-- No two ways of pairing are innermost: they agree on a call once they agree on the earlier
ones. -/
theorem PairsInnermost.unique {other : Set (Nat × Nat)} (innermost : method.PairsInnermost pairs)
    (others : method.PairsInnermost other) : pairs = other := by
  have agree (call : Nat) : ∀ allocated, (allocated, call) ∈ pairs ↔ (allocated, call) ∈ other := by
    induction call using Nat.strong_induction_on with
    | _ call ih =>
        intro allocated
        have same : method.pending pairs call = method.pending other call :=
          pending_congr fun allocated earlier less => ih earlier less allocated
        rw [innermost allocated call, others allocated call, same]
  ext ⟨allocated, call⟩
  exact agree call allocated

theorem mem_pairs_iff_head? (method : Method) (allocated call : Nat) :
    (allocated, call) ∈ method.pairs ↔
      (method.openPlaces call).head? = some allocated ∧ method.fits allocated call = true := by
  show method.completedPlace? (method.openPlaces call) call = some allocated ↔ _
  rw [completedPlace?, Option.filter_eq_some_iff]

theorem eq_of_mem_pairs {first second call : Nat} (one : (first, call) ∈ method.pairs)
    (other : (second, call) ∈ method.pairs) : first = second :=
  Option.some.inj (one.symm.trans other)

theorem not_mem_pairs_of_initialized? {call : Nat} (uncalled : method.initialized? call = none)
    (allocated : Nat) : (allocated, call) ∉ method.pairs := by
  intro paired
  have fits := ((method.mem_pairs_iff_head? allocated call).mp paired).2
  have called := isSome_initialized?_of_fits fits
  rw [uncalled] at called
  cases called

/-- What an instruction does to the open places: it opens its own, closes the innermost, or leaves
them alone. -/
theorem openPlaces_succ_cases (method : Method) (place : Nat) :
    ((method.allocation? place).isSome = true ∧ (∀ allocated, (allocated, place) ∉ method.pairs) ∧
      method.openPlaces (place + 1) = place :: method.openPlaces place) ∨
    (∃ completed, (completed, place) ∈ method.pairs ∧ method.allocation? place = none ∧
      method.openPlaces place = completed :: method.openPlaces (place + 1)) ∨
    (method.allocation? place = none ∧ (∀ allocated, (allocated, place) ∉ method.pairs) ∧
      method.openPlaces (place + 1) = method.openPlaces place) := by
  rw [openPlaces]
  cases allocates : method.allocation? place with
  | some allocation =>
      have uncalled := initialized?_of_isSome_allocation? (Option.isSome_of_eq_some allocates)
      exact Or.inl ⟨rfl, not_mem_pairs_of_initialized? uncalled, rfl⟩
  | none =>
      right
      cases completes : method.completedPlace? (method.openPlaces place) place with
      | some completed =>
          have paired : (completed, place) ∈ method.pairs := completes
          have head := ((method.mem_pairs_iff_head? completed place).mp paired).1
          obtain ⟨rest, whole⟩ := List.head?_eq_some_iff.mp head
          refine Or.inl ⟨completed, paired, rfl, ?_⟩
          rw [whole]
          rfl
      | none =>
          refine Or.inr ⟨rfl, fun allocated paired => ?_, rfl⟩
          cases completes.symm.trans paired

/-- The open places stand in descending order. -/
theorem openPlaces_descending (method : Method) (place : Nat) :
    (method.openPlaces place).Pairwise (· > ·) ∧
      ∀ opened ∈ method.openPlaces place, opened < place := by
  induction place with
  | zero => exact ⟨List.Pairwise.nil, fun opened member => absurd member List.not_mem_nil⟩
  | succ place ih =>
      obtain ⟨descending, below⟩ := ih
      rcases method.openPlaces_succ_cases place with
        ⟨_, _, opens⟩ | ⟨completed, _, _, closes⟩ | ⟨_, _, same⟩
      · rw [opens]
        refine ⟨List.pairwise_cons.mpr ⟨below, descending⟩, fun opened member => ?_⟩
        rcases List.mem_cons.mp member with rfl | member
        · exact Nat.lt_succ_self opened
        · exact Nat.lt_succ_of_lt (below opened member)
      · rw [closes] at descending below
        refine ⟨(List.pairwise_cons.mp descending).2, fun opened member => ?_⟩
        exact Nat.lt_succ_of_lt (below opened (List.mem_cons_of_mem completed member))
      · rw [same]
        exact ⟨descending, fun opened member => Nat.lt_succ_of_lt (below opened member)⟩

theorem lt_of_mem_pairs {allocated call : Nat} (paired : (allocated, call) ∈ method.pairs) :
    allocated < call := by
  have head := ((method.mem_pairs_iff_head? allocated call).mp paired).1
  exact (method.openPlaces_descending call).2 allocated (List.mem_of_head? head)

/-- One more instruction leaves pending what was, but for what it completes, and adds what it
allocates. -/
theorem mem_pending_succ_iff (method : Method) (place allocated : Nat) :
    allocated ∈ method.pending method.pairs (place + 1) ↔
      (allocated ∈ method.pending method.pairs place ∨
        allocated = place ∧ (method.allocation? place).isSome = true) ∧
      (allocated, place) ∉ method.pairs := by
  constructor
  · rintro ⟨below, allocates, waiting⟩
    refine ⟨?_, waiting place (Nat.lt_succ_self place)⟩
    rcases Nat.lt_succ_iff_lt_or_eq.mp below with before | rfl
    · exact Or.inl ⟨before, allocates, fun call less => waiting call (Nat.lt_succ_of_lt less)⟩
    · exact Or.inr ⟨rfl, allocates⟩
  · rintro ⟨⟨before, allocates, waiting⟩ | ⟨rfl, allocates⟩, unpaired⟩
    · refine ⟨Nat.lt_succ_of_lt before, allocates, fun call less => ?_⟩
      rcases Nat.lt_succ_iff_lt_or_eq.mp less with earlier | rfl
      · exact waiting call earlier
      · exact unpaired
    · refine ⟨Nat.lt_succ_self allocated, allocates, fun call less paired => ?_⟩
      exact absurd (lt_of_mem_pairs paired) (Nat.not_lt.mpr (Nat.lt_succ_iff.mp less))

/-- The open allocations are the pending ones. -/
theorem mem_openPlaces_iff (method : Method) (place allocated : Nat) :
    allocated ∈ method.openPlaces place ↔ allocated ∈ method.pending method.pairs place := by
  induction place with
  | zero =>
      constructor
      · intro member
        cases member
      · intro waiting
        exact absurd waiting.1 (Nat.not_lt_zero allocated)
  | succ place ih =>
      rw [mem_pending_succ_iff, ← ih]
      rcases method.openPlaces_succ_cases place with
        ⟨allocates, unpaired, opens⟩ | ⟨completed, paired, idle, closes⟩ | ⟨idle, unpaired, same⟩
      · rw [opens, List.mem_cons, and_iff_left (unpaired allocated), and_iff_left allocates]
        exact or_comm
      · -- Only the innermost is in a pair with this place, and the others stand strictly before it.
        have descending := (method.openPlaces_descending place).1
        rw [closes] at descending ⊢
        rw [idle, or_iff_left fun both => nomatch both.2]
        constructor
        · intro member
          refine ⟨List.mem_cons_of_mem completed member, fun again => ?_⟩
          have less := (List.pairwise_cons.mp descending).1 allocated member
          exact Nat.ne_of_lt less (eq_of_mem_pairs again paired)
        · rintro ⟨member, unpaired⟩
          rcases List.mem_cons.mp member with rfl | member
          · exact absurd paired unpaired
          · exact member
      · rw [same, idle, and_iff_left (unpaired allocated), or_iff_left fun both => nomatch both.2]

/-- The head of a descending list is its greatest member. -/
theorem head?_eq_some_iff_isGreatest {places : List Nat} (descending : places.Pairwise (· > ·))
    (place : Nat) :
    places.head? = some place ↔ IsGreatest {member | member ∈ places} place := by
  cases places with
  | nil => exact ⟨nofun, fun greatest => absurd greatest.1 List.not_mem_nil⟩
  | cons first rest =>
      have below := (List.pairwise_cons.mp descending).1
      have greatest : IsGreatest {member | member ∈ first :: rest} first := by
        refine ⟨List.mem_cons_self, fun member inside => ?_⟩
        rcases List.mem_cons.mp inside with rfl | later
        · exact Nat.le_refl member
        · exact Nat.le_of_lt (below member later)
      rw [List.head?_cons, Option.some.injEq]
      exact ⟨fun same => same ▸ greatest, fun other => greatest.unique other⟩

/-- The walk pairs innermost. -/
theorem pairsInnermost (method : Method) : method.PairsInnermost method.pairs := by
  intro allocated call
  have same : {member | member ∈ method.openPlaces call} = method.pending method.pairs call := by
    ext member
    exact method.mem_openPlaces_iff call member
  rw [mem_pairs_iff_head?,
    head?_eq_some_iff_isGreatest (method.openPlaces_descending call).1, same]

end Method

end MethodPatch
