import MethodPatch.Proofs.Override.Application

set_option autoImplicit false

namespace MethodPatch

namespace Session

/-- The session selects the instruction and, where the raw body is known, none of the earlier ones
that share its offset. -/
def selectsAfter (session : Session) (caller : String) (bytecode : List UInt8)
    (earlier : List Instruction) (instruction : Instruction) : Bool :=
  session.selects caller bytecode instruction &&
    (bytecode.isEmpty || earlier.all fun other =>
      !(session.selects caller bytecode other && other.offset == instruction.offset))

theorem selectsAfter_iff (session : Session) (caller : String) (bytecode : List UInt8)
    (earlier : List Instruction) (instruction : Instruction) :
    session.selectsAfter caller bytecode earlier instruction = true ↔
      session.selects caller bytecode instruction = true ∧ (bytecode ≠ [] → ∀ other ∈ earlier,
        session.selects caller bytecode other = true → other.offset ≠ instruction.offset) := by
  simp only [selectsAfter, Bool.and_eq_true, Bool.or_eq_true, List.isEmpty_iff, List.all_eq_true,
    Bool.not_eq_true', Bool.and_eq_false_imp, beq_eq_false_iff_ne, ne_eq, or_iff_not_imp_left]

/-- An instruction that is changed counts as an earlier one for all after it, through its byte. -/
theorem selectsAfter_cons_of_selects {session : Session} {caller : String} {bytecode : List UInt8}
    {first : Instruction} (selected : session.selects caller bytecode first = true)
    (earlier : List Instruction) (instruction : Instruction) :
    session.selectsAfter caller bytecode (first :: earlier) instruction =
      session.selectsAfter caller (bytecode.set first.offset.toNat Opcode.invokeVirtual) earlier
        instruction := by
  rw [Bool.eq_iff_iff, selectsAfter_iff, selectsAfter_iff, selects_set_iff, and_assoc]
  apply and_congr_right
  intro _
  constructor
  · intro apart
    refine ⟨fun known => apart known first List.mem_cons_self selected, ?_⟩
    intro written other member otherSelected
    have known : bytecode ≠ [] := fun unknown => written (by rw [unknown, List.set_nil])
    exact apart known other (List.mem_cons_of_mem first member)
      ((session.selects_set_iff caller bytecode first.offset other).mp otherSelected).1
  · rintro ⟨own, apart⟩ known other member otherSelected
    have written : bytecode.set first.offset.toNat Opcode.invokeVirtual ≠ [] :=
      fun unknown => known ((List.set_eq_nil_iff _ _).mp unknown)
    rcases List.mem_cons.mp member with rfl | later
    · exact own known
    · intro sameOffset
      have separate : first.offset ≠ other.offset := sameOffset ▸ own known
      have still := (session.selects_set_iff caller bytecode first.offset other).mpr
        ⟨otherSelected, fun _ => separate⟩
      exact apart written other later still sameOffset

theorem selectsAfter_cons_of_not_selects {session : Session} {caller : String}
    {bytecode : List UInt8} {first : Instruction}
    (passed : ¬ session.selects caller bytecode first = true) (earlier : List Instruction)
    (instruction : Instruction) :
    session.selectsAfter caller bytecode (first :: earlier) instruction =
      session.selectsAfter caller bytecode earlier instruction := by
  simp only [selectsAfter, List.all_cons, Bool.not_eq_true _ ▸ passed, Bool.false_and,
    Bool.not_false, Bool.true_and]

/-- What becomes of the instruction at each position of a body, told by the untouched bytes. -/
theorem getElem?_patchBody (session : Session) (caller : String) (bytecode : List UInt8)
    (instructions : List Instruction) (position : Nat) :
    (session.patchBody caller bytecode instructions).instructions[position]? =
      instructions[position]?.map fun instruction =>
        if session.selectsAfter caller bytecode (instructions.take position) instruction then
          instruction.madeVirtual
        else instruction := by
  induction instructions generalizing bytecode position with
  | nil => rfl
  | cons first rest ih =>
      cases position with
      | zero =>
          have alone : session.selectsAfter caller bytecode [] first =
              session.selects caller bytecode first := by
            rw [selectsAfter, List.all_nil, Bool.or_true, Bool.and_true]
          rw [patchBody_cons, List.take_zero, List.getElem?_cons_zero, Option.map_some, alone]
          split <;> rfl
      | succ position =>
          rw [List.take_succ_cons, List.getElem?_cons_succ]
          by_cases selected : session.selects caller bytecode first = true
          · rw [patchBody_of_selects selected, List.getElem?_cons_succ, ih]
            simp only [selectsAfter_cons_of_selects selected]
          · rw [patchBody_of_not_selects selected, List.getElem?_cons_succ, ih]
            simp only [selectsAfter_cons_of_not_selects selected]

/-- The rules foretell an application to a method: it changes the instructions that some rule
selects in the method as it is, and gives their number. -/
def Foretells (session : Session) (caller : String) (method : Method) : Prop :=
  (∀ (position : Nat) (instruction : Instruction),
    method.instructions[position]? = some instruction →
    ((session.applyToMethod caller method).1.instructions[position]? ≠ some instruction ↔
      ∃ rule ∈ session.rules, rule.selects caller method instruction = true)) ∧
  (session.applyToMethod caller method).2 =
    method.instructions.countP fun instruction =>
      session.rules.any fun rule => rule.selects caller method instruction

/-- An instruction is changed exactly when the session selects it and no earlier one took its
byte. -/
theorem changes_iff_selectsAfter (session : Session) (caller : String) (method : Method)
    {position : Nat} {instruction : Instruction}
    (standing : method.instructions[position]? = some instruction) :
    (session.applyToMethod caller method).1.instructions[position]? ≠ some instruction ↔
      session.selectsAfter caller method.bytecode (method.instructions.take position)
        instruction = true := by
  have patched := session.getElem?_patchBody caller method.bytecode method.instructions position
  rw [applyToMethod, patched, standing, Option.map_some, ne_eq, Option.some.injEq]
  constructor
  · intro changed
    by_contra passed
    exact changed (if_neg passed)
  · intro selected
    rw [if_pos selected]
    have chosen := ((session.selectsAfter_iff _ _ _ _).mp selected).1
    obtain ⟨call, calls, special⟩ := special_of_selects chosen
    exact Instruction.madeVirtual_ne calls special

theorem length_selectedCalls (session : Session) (caller : String) (method : Method) :
    (session.selectedCalls caller method.bytecode method.instructions).length =
      method.instructions.countP fun instruction =>
        session.rules.any fun rule => rule.selects caller method instruction := by
  rw [selectedCalls, List.length_filterMap_eq_countP, List.countP_filter]
  apply List.countP_congr
  intro instruction _
  rw [Bool.and_eq_true, List.any_eq_true, ← selects_iff_exists_rule]
  apply and_iff_right_of_imp
  intro selected
  obtain ⟨call, calls, _⟩ := special_of_selects selected
  rw [calls, Option.isSome_some]

/-- Rules foretell an application exactly where the raw body is not known or no two instructions
that they select share an offset. -/
theorem foretells_iff (session : Session) (caller : String) (method : Method) :
    session.Foretells caller method ↔
      session.SelectsApart caller method.bytecode method.instructions := by
  constructor
  · rintro ⟨foretold, _⟩ known
    rw [List.pairwise_iff_getElem]
    intro earlier later earlierBound laterBound before selected otherSelected sameOffset
    have standing : method.instructions[later]? = some method.instructions[later] :=
      List.getElem?_eq_getElem laterBound
    have chosen := (session.selects_iff_exists_rule caller method _).mp otherSelected
    have changed := (session.changes_iff_selectsAfter caller method standing).mp
      ((foretold later _ standing).mpr chosen)
    have member : method.instructions[earlier] ∈ method.instructions.take later :=
      List.mem_take_iff_getElem.mpr ⟨earlier, by omega, rfl⟩
    exact ((session.selectsAfter_iff _ _ _ _).mp changed).2 known _ member selected sameOffset
  · intro apart
    constructor
    · intro position instruction standing
      rw [session.changes_iff_selectsAfter caller method standing, selectsAfter_iff,
        ← selects_iff_exists_rule]
      apply and_iff_left_of_imp
      intro selected known other member otherSelected
      obtain ⟨bound, here⟩ := List.getElem?_eq_some_iff.mp standing
      obtain ⟨earlier, earlierBound, there⟩ := List.mem_take_iff_getElem.mp member
      have separate := List.pairwise_iff_getElem.mp (apart known) earlier position (by omega)
        bound (by omega)
      rw [there, here] at separate
      exact separate otherSelected selected
    · rw [← length_selectedCalls, ← session.changedCalls_patchBody _ _ _ apart]
      exact session.changed_patchBody caller method.bytecode method.instructions

/-- Of two calls at one offset a rule selects both, and an application changes the first alone. -/
theorem not_foretells_shared_offset :
    let rule : CallSiteRule := ⟨⟨"app/Hud", "draw", "()V"⟩⟩
    let call := Instruction.encoding 0 (.invoke ⟨"app/Hud", "draw", "()V", .special, 0⟩)
    let method : Method :=
      ⟨"render", "()V", .packagePrivate, [Opcode.invokeSpecial, 0, 7], [call, call], [], []⟩
    ¬ Foretells ⟨[rule], [rule.target]⟩ "app/Hud" method := by
  rintro rule call method ⟨foretold, _⟩
  have selected : rule.selects "app/Hud" method call = true := by decide +kernel
  have kept : (applyToMethod ⟨[rule], [rule.target]⟩ "app/Hud" method).1.instructions[1]? =
      some call := by decide +kernel
  exact (foretold 1 call rfl).mpr ⟨rule, List.mem_singleton_self rule, selected⟩ kept

end Session

end MethodPatch
