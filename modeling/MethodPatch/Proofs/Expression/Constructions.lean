import MethodPatch.Proofs.Expression.Pairing
import MethodPatch.Proofs.Expression.Places

set_option autoImplicit false

namespace MethodPatch.Method

variable {method : Method}

theorem allocation?_of_here {place : Nat} {instruction : Instruction}
    (here : method.instructions[place]? = some instruction) :
    method.allocation? place =
      instruction.operation.allocated?.map fun type => ⟨type, instruction.offset⟩ := by
  rw [allocation?, here, Option.bind_some]

theorem initialized?_of_here {place : Nat} {instruction : Instruction}
    (here : method.instructions[place]? = some instruction) :
    method.initialized? place = instruction.operation.initialized? := by
  rw [initialized?, here, Option.bind_some]

theorem allocation?_of_mem_openPlaces {place opened : Nat}
    (member : opened ∈ method.openPlaces place) : (method.allocation? opened).isSome = true :=
  ((method.mem_openPlaces_iff place opened).mp member).2.1

/-- The walk completes the allocation at the completed place. -/
theorem completed?_openPlaces {place : Nat} {instruction : Instruction}
    (here : method.instructions[place]? = some instruction) :
    instruction.operation.completed? ((method.openPlaces place).filterMap method.allocation?) =
      (method.completedPlace? (method.openPlaces place) place).bind method.allocation? := by
  cases opened : method.openPlaces place with
  | nil => exact instruction.operation.completed?_nil
  | cons first rest =>
      have member : first ∈ method.openPlaces place := opened ▸ List.mem_cons_self
      obtain ⟨innermost, allocates⟩ :=
        Option.isSome_iff_exists.mp (allocation?_of_mem_openPlaces member)
      have fits : method.fits first place =
          instruction.operation.initialized?.any (TypeName.same innermost.type) := by
        rw [Method.fits, allocates, Option.any_some, initialized?_of_here here]
      rw [List.filterMap_cons_some allocates, Operation.completed?_cons, completedPlace?,
        List.head?_cons, Option.filter_some, fits]
      split
      · exact allocates.symm
      · rfl

theorem filterMap_openPlaces_succ {place : Nat} {instruction : Instruction}
    (here : method.instructions[place]? = some instruction) :
    (method.openPlaces (place + 1)).filterMap method.allocation? =
      instruction.operation.openedAfter instruction.offset
        ((method.openPlaces place).filterMap method.allocation?) := by
  have allocation := allocation?_of_here here
  have completed := completed?_openPlaces here
  rcases method.openPlaces_succ_cases place with
    ⟨allocates, _, opens⟩ | ⟨inner, paired, idle, closes⟩ | ⟨idle, unpaired, same⟩
  · rw [allocation, Option.isSome_map] at allocates
    obtain ⟨type, allocates⟩ := Option.isSome_iff_exists.mp allocates
    rw [allocates, Option.map_some] at allocation
    rw [opens, List.filterMap_cons_some allocation, Operation.openedAfter_of_allocated? allocates]
  · have member : inner ∈ method.openPlaces place := closes ▸ List.mem_cons_self
    obtain ⟨innermost, made⟩ :=
      Option.isSome_iff_exists.mp (allocation?_of_mem_openPlaces member)
    have completes : method.completedPlace? (method.openPlaces place) place = some inner := paired
    rw [idle, eq_comm, Option.map_eq_none_iff] at allocation
    rw [completes, Option.bind_some, made] at completed
    rw [Operation.openedAfter_of_allocated?_none allocation, completed, closes,
      List.filterMap_cons_some made]
    rfl
  · have completes : method.completedPlace? (method.openPlaces place) place = none :=
      Option.eq_none_iff_forall_ne_some.mpr unpaired
    rw [idle, eq_comm, Option.map_eq_none_iff] at allocation
    rw [completes, Option.bind_none] at completed
    rw [Operation.openedAfter_of_allocated?_none allocation, completed, same]
    rfl

/-- The open allocations of the walk stand at the open places. -/
theorem openedBefore_eq (method : Method) (place : Nat) :
    method.openedBefore place = (method.openPlaces place).filterMap method.allocation? := by
  induction place with
  | zero => rfl
  | succ place ih =>
      cases here : method.instructions[place]? with
      | some instruction =>
          rw [method.openedBefore_succ place here, filterMap_openPlaces_succ here, ih]
      | none =>
          have uncalled : method.initialized? place = none := by rw [initialized?, here]; rfl
          rw [method.openedBefore_succ_of_none place here, ih]
          rcases method.openPlaces_succ_cases place with
            ⟨allocates, _, _⟩ | ⟨completed, paired, _, _⟩ | ⟨_, _, same⟩
          · rw [allocation?, here] at allocates
            cases allocates
          · exact absurd paired (not_mem_pairs_of_initialized? uncalled completed)
          · rw [same]

/-- The allocation that the walk completes at a place is the one that the place is paired with. -/
theorem completed?_eq_some_iff {place : Nat} {instruction : Instruction}
    (here : method.instructions[place]? = some instruction) (allocation : Allocation) :
    instruction.operation.completed? (method.openedBefore place) = some allocation ↔
      ∃ allocated, (allocated, place) ∈ method.pairs ∧
        method.allocation? allocated = some allocation := by
  rw [openedBefore_eq, completed?_openPlaces here, Option.bind_eq_some_iff]
  rfl

/-- The walk over a method of the class `owner` reports the call at `call` as the construction of
the allocation at `allocated`, with the offset of that allocation. -/
def ReportsConstruction (method : Method) (owner : String) (allocated call : Nat) : Prop :=
  ∃ allocating completing site,
    method.instructions[allocated]? = some allocating ∧
    method.instructions[call]? = some completing ∧ completing.operation = .invoke site ∧
    method.visitAt? owner call = some ⟨.objectConstruction,
      ⟨.objectConstruction, owner, method, method.positionAt completing.offset,
        .construction site allocating.offset⟩⟩

/-- The constructions that the walk reports are those of the pairs. -/
structure Constructs (method : Method) (owner : String) (pairs : Set (Nat × Nat)) : Prop where
  construction : ∀ pair ∈ pairs, method.ReportsConstruction owner pair.1 pair.2
  paired : ∀ place visit, method.visitAt? owner place = some visit →
    visit.kind = .objectConstruction → ∃ allocated, (allocated, place) ∈ pairs

theorem exists_of_allocation? {place : Nat} {allocation : Allocation}
    (allocates : method.allocation? place = some allocation) :
    ∃ instruction, method.instructions[place]? = some instruction ∧
      instruction.offset = allocation.offset := by
  obtain ⟨instruction, here, made⟩ := Option.bind_eq_some_iff.mp allocates
  obtain ⟨type, _, rfl⟩ := Option.map_eq_some_iff.mp made
  exact ⟨instruction, here, rfl⟩

theorem exists_of_initialized? {place : Nat} {type : String}
    (initializes : method.initialized? place = some type) :
    ∃ instruction call, method.instructions[place]? = some instruction ∧
      instruction.operation = .invoke call ∧ call.isConstructor = true := by
  obtain ⟨instruction, here, called⟩ := Option.bind_eq_some_iff.mp initializes
  refine ⟨instruction, ?_⟩
  cases operation : instruction.operation with
  | invoke call =>
      rw [operation, Operation.initialized?] at called
      by_cases constructor : call.isConstructor = true
      · exact ⟨call, here, rfl, constructor⟩
      · rw [if_neg constructor] at called
        cases called
  | _ =>
      rw [operation] at called
      cases called

/-- The visit at a place, given what is completed there. -/
theorem visitAt?_eq (owner : String) {place : Nat} {instruction : Instruction}
    (here : method.instructions[place]? = some instruction) :
    method.visitAt? owner place = (instruction.operation.expression?
      ((instruction.operation.completed? (method.openedBefore place)).map (·.offset))).map
        fun (kind, detail) =>
          ⟨kind, ⟨kind, owner, method, method.positionAt instruction.offset, detail⟩⟩ := by
  rw [visitAt?, here, Option.bind_some]
  rfl

theorem isSome_of_objectConstruction {operation : Operation} {allocatedAt : Option UInt32}
    {detail : Detail}
    (expression : operation.expression? allocatedAt = some (.objectConstruction, detail)) :
    allocatedAt.isSome = true := by
  cases operation with
  | invoke call =>
      simp only [Operation.expression?] at expression
      split at expression
      · cases allocatedAt with
        | some offset => rfl
        | none => cases expression
      · cases expression
  | _ => cases expression

theorem constructs_pairs (owner : String) (method : Method) :
    method.Constructs owner method.pairs := by
  refine ⟨?_, ?_⟩
  · rintro ⟨allocated, place⟩ paired
    have fits := ((method.mem_pairs_iff_head? allocated place).mp paired).2
    obtain ⟨allocation, made, type, initializes, _⟩ := (method.fits_iff allocated place).mp fits
    obtain ⟨allocating, there, offset⟩ := exists_of_allocation? made
    obtain ⟨completing, call, here, operation, constructor⟩ := exists_of_initialized? initializes
    have completed := (completed?_eq_some_iff here allocation).mpr ⟨allocated, paired, made⟩
    refine ⟨allocating, completing, call, there, here, operation, ?_⟩
    rw [visitAt?_eq owner here, completed, operation, offset]
    simp only [Operation.expression?, if_pos constructor, Option.map_some]
  · intro place visit visited construction
    obtain ⟨instruction, here, _⟩ := Option.bind_eq_some_iff.mp visited
    rw [visitAt?_eq owner here, Option.map_eq_some_iff] at visited
    obtain ⟨⟨kind, detail⟩, expression, rfl⟩ := visited
    have same : kind = .objectConstruction := construction
    subst same
    have completes := isSome_of_objectConstruction expression
    rw [Option.isSome_map] at completes
    obtain ⟨allocation, completed⟩ := Option.isSome_iff_exists.mp completes
    obtain ⟨allocated, paired, _⟩ := (completed?_eq_some_iff here allocation).mp completed
    exact ⟨allocated, paired⟩

end MethodPatch.Method
