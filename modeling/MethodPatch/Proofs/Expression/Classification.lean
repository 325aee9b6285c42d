import MethodPatch.Proofs.Expression.Constructions
import Mathlib.Data.List.Forall2

set_option autoImplicit false

namespace MethodPatch

/-- The offset of the completed allocation, in the detail of a construction. -/
def Detail.allocatedAt? : Detail → Option UInt32
  | .construction _ allocatedAt => some allocatedAt
  | _ => none

/-- The operation that an expression of this kind and with this detail stands for. -/
def Detail.operation? (kind : ExpressionKind) : Detail → Option Operation
  | .call site => some (.invoke site)
  | .construction site _ => some (.invoke site)
  | .field use => some (.field use)
  | .type name =>
      match kind with
      | .typeCast => some (.checkCast name)
      | .typeCheck => some (.instanceOf name)
      | _ => none
  | .array component dimensions => some (.newArray component dimensions)
  | .handler _ => none

namespace Operation

variable {operation : Operation} {allocatedAt : Option UInt32} {kind : ExpressionKind}
  {detail : Detail}

/-- Which allocation is completed makes no difference to the kind. -/
theorem kind?_isSome (operation : Operation) (allocatedAt : Option UInt32) :
    operation.kind? allocatedAt.isSome = (operation.expression? allocatedAt).map (·.1) := by
  cases operation with
  | invoke call =>
      rw [kind?]
      simp only [expression?]
      cases call.isConstructor <;> cases allocatedAt <;> rfl
  | _ => rfl

/-- Kind and detail of an expression hold all of its operation. -/
theorem operation?_of_expression?
    (expression : operation.expression? allocatedAt = some (kind, detail)) :
    detail.operation? kind = some operation := by
  cases operation with
  | invoke call =>
      simp only [expression?] at expression
      split at expression
      · cases allocatedAt <;> cases expression <;> rfl
      · cases expression
        rfl
  | _ =>
      cases expression
      try rfl

/-- An initializer call that completes an allocation is a construction with its offset; no other
operation is one. -/
theorem allocatedAt?_of_expression?
    (expression : operation.expression? allocatedAt = some (kind, detail))
    (completes : allocatedAt.isSome = true → operation.initialized?.isSome = true) :
    detail.allocatedAt? = allocatedAt := by
  cases operation with
  | invoke call =>
      simp only [expression?] at expression
      simp only [initialized?] at completes
      split at expression
      · cases allocatedAt <;> cases expression <;> rfl
      · rename_i plain
        rw [if_neg plain] at completes
        cases expression
        cases allocatedAt with
        | none => rfl
        | some offset => exact absurd (completes rfl) Bool.false_ne_true
  | _ =>
      cases allocatedAt with
      | none =>
          cases expression
          try rfl
      | some offset => exact absurd (completes rfl) Bool.false_ne_true

theorem initialized?_of_completed? {opened : List Allocation} {allocation : Allocation}
    (completes : operation.completed? opened = some allocation) :
    operation.initialized?.isSome = true := by
  cases opened with
  | nil => cases operation.completed?_nil.symm.trans completes
  | cons innermost rest =>
      rw [completed?_cons] at completes
      cases initializes : operation.initialized? with
      | none =>
          rw [initializes] at completes
          cases completes
      | some type => rfl

end Operation

namespace Method

/-- Whether the instruction at `place` completes an allocation. -/
def completesAt (method : Method) (place : Nat) : Bool :=
  (method.completedPlace? (method.openPlaces place) place).isSome

/-- The kind of the instruction at `place`, given by its operation and by whether it completes an
allocation. -/
def kindAt? (method : Method) (place : Nat) : Option ExpressionKind :=
  method.instructions[place]?.bind fun instruction =>
    instruction.operation.kind? (method.completesAt place)

/-- The places of the instructions that have a kind. -/
def expressionPlaces (method : Method) : List Nat :=
  (List.range method.instructions.length).filter fun place => (method.kindAt? place).isSome

/-- The expression of a visit is of this method of the class `owner`, and of the kind that it is
handed over as. -/
structure Walked (owner : String) (method : Method) (visit : Visit) : Prop where
  kind : visit.expression.kind = visit.kind
  ofClass : visit.expression.owner = owner
  ofMethod : visit.expression.method = method

/-- A walk over a method of the class `owner` shows the instruction at `place` in this visit. -/
structure Shows (owner : String) (method : Method) (place : Nat) (visit : Visit) : Prop where
  walked : method.Walked owner visit
  kind : method.kindAt? place = some visit.kind
  /-- The position is the offset of the instruction, with the line of this offset. -/
  position : (method.instructions[place]?).map (fun instruction =>
    ⟨instruction.offset, method.lineAt instruction.offset⟩) = some visit.expression.position
  /-- The detail holds all that the operation of the instruction refers to. -/
  operation : (method.instructions[place]?).map (·.operation) =
    visit.expression.detail.operation? visit.kind
  /-- The detail is that of a construction exactly if the instruction completes an allocation, and
  then it has the offset of this allocation. -/
  construction : visit.expression.detail.allocatedAt?.isSome = method.completesAt place
  allocatedAt : ∀ allocated, (allocated, place) ∈ method.pairs →
    (method.instructions[allocated]?).map (·.offset) = visit.expression.detail.allocatedAt?

/-- A walk over a method of the class `owner` shows the entry of the handler in this visit. -/
structure ShowsEntry (owner : String) (method : Method) (handler : Handler) (visit : Visit) :
    Prop where
  walked : method.Walked owner visit
  kind : visit.kind = .exceptionHandlerEntry
  position : visit.expression.position = ⟨handler.entry, method.lineAt handler.entry⟩
  detail : visit.expression.detail = .handler handler

variable {method : Method}

theorem completesAt_iff (method : Method) (place : Nat) :
    method.completesAt place = true ↔ ∃ allocated, (allocated, place) ∈ method.pairs :=
  Option.isSome_iff_exists

theorem exists_allocation?_of_mem_pairs {allocated place : Nat}
    (paired : (allocated, place) ∈ method.pairs) :
    ∃ allocation, method.allocation? allocated = some allocation := by
  have fits := ((method.mem_pairs_iff_head? allocated place).mp paired).2
  exact Option.isSome_iff_exists.mp (isSome_allocation?_of_fits fits)

theorem isSome_completed? {place : Nat} {instruction : Instruction}
    (here : method.instructions[place]? = some instruction) :
    (instruction.operation.completed? (method.openedBefore place)).isSome =
      method.completesAt place := by
  rw [Bool.eq_iff_iff, completesAt_iff, Option.isSome_iff_exists]
  constructor
  · rintro ⟨allocation, completed⟩
    obtain ⟨allocated, paired, _⟩ := (completed?_eq_some_iff here allocation).mp completed
    exact ⟨allocated, paired⟩
  · rintro ⟨allocated, paired⟩
    obtain ⟨allocation, made⟩ := exists_allocation?_of_mem_pairs paired
    exact ⟨allocation, (completed?_eq_some_iff here allocation).mpr ⟨allocated, paired, made⟩⟩

/-- The walk visits an instruction in the kind that it has by itself, or not at all. -/
theorem kindAt?_eq (owner : String) (method : Method) (place : Nat) :
    method.kindAt? place = (method.visitAt? owner place).map (·.kind) := by
  cases here : method.instructions[place]? with
  | none => rw [kindAt?, visitAt?, here, Option.bind_none, Option.bind_none, Option.map_none]
  | some instruction =>
      rw [visitAt?_eq owner here, kindAt?, here, Option.bind_some, ← isSome_completed? here,
        ← Option.isSome_map, Operation.kind?_isSome, Option.map_map]
      rfl

theorem shows_of_visitAt? {owner : String} {place : Nat} {visit : Visit}
    (visited : method.visitAt? owner place = some visit) : method.Shows owner place visit := by
  have kind := method.kindAt?_eq owner place
  rw [visited] at kind
  obtain ⟨instruction, here, _⟩ := Option.bind_eq_some_iff.mp visited
  have completes := isSome_completed? here
  rw [visitAt?_eq owner here, Option.map_eq_some_iff] at visited
  obtain ⟨⟨_, detail⟩, expression, rfl⟩ := visited
  have allocatedAt := Operation.allocatedAt?_of_expression? expression fun completed => by
    rw [Option.isSome_map] at completed
    obtain ⟨_, completed⟩ := Option.isSome_iff_exists.mp completed
    exact Operation.initialized?_of_completed? completed
  refine ⟨⟨rfl, rfl, rfl⟩, kind, ?_, ?_, ?_, fun allocated paired => ?_⟩
  · rw [here]
    rfl
  · rw [here]
    exact (Operation.operation?_of_expression? expression).symm
  · rw [allocatedAt, Option.isSome_map, completes]
  · obtain ⟨allocation, made⟩ := exists_allocation?_of_mem_pairs paired
    obtain ⟨allocating, there, offset⟩ := exists_of_allocation? made
    rw [allocatedAt, (completed?_eq_some_iff here allocation).mpr ⟨allocated, paired, made⟩, there,
      Option.map_some, Option.map_some, offset]

/-- A filtered map takes the items that give something, one by one. -/
theorem forall₂_filterMap {α β : Type} {related : α → β → Prop} {give : α → Option β}
    (gives : ∀ item made, give item = some made → related item made) (items : List α) :
    List.Forall₂ related (items.filter fun item => (give item).isSome) (items.filterMap give) := by
  induction items with
  | nil => exact .nil
  | cons item rest ih =>
      cases made : give item with
      | none =>
          rw [List.filterMap_cons_none made, List.filter_cons_of_neg (by simp [made])]
          exact ih
      | some result =>
          rw [List.filterMap_cons_some made, List.filter_cons_of_pos (by simp [made])]
          exact .cons (gives item result made) ih

/-- A walk shows the instructions that have a kind, one after another in their order and no other,
and then the entry of every handler in table order. Whether an instruction completes an allocation
is told by the only pairs in which each initializer call completes the last allocation that is
pending before it, where the types agree. -/
theorem visits_classified (owner : String) (method : Method) :
    method.PairsInnermost method.pairs ∧
      (∀ place, method.completesAt place = true ↔
        ∃ allocated, (allocated, place) ∈ method.pairs) ∧
      ∃ shown entries, method.visits owner = shown ++ entries ∧
        List.Forall₂ (method.Shows owner) method.expressionPlaces shown ∧
        List.Forall₂ (method.ShowsEntry owner) method.handlers entries := by
  refine ⟨method.pairsInnermost, method.completesAt_iff, _, _, method.visits_eq_filterMap owner,
    ?_, ?_⟩
  · have visited (place : Nat) :
        (method.kindAt? place).isSome = (method.visitAt? owner place).isSome := by
      rw [method.kindAt?_eq owner, Option.isSome_map]
    rw [expressionPlaces, funext visited]
    exact forall₂_filterMap (fun _ _ => shows_of_visitAt?) _
  · rw [List.forall₂_map_right_iff, List.forall₂_same]
    exact fun handler _ => ⟨⟨rfl, rfl, rfl⟩, rfl, rfl, rfl⟩

end Method

end MethodPatch
