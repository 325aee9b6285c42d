set_option autoImplicit false

namespace MethodPatch.FirstMatch

variable {α β : Type}

/-- Changes the first item that passes, the one that `List.find?` gives; every other item stays. -/
def modify (passes : α → Bool) (change : α → α) (items : List α) : List α :=
  items.modify (items.findIdx passes) change

theorem modify_cons (passes : α → Bool) (change : α → α) (item : α) (rest : List α) :
    modify passes change (item :: rest) =
      if passes item then change item :: rest else item :: modify passes change rest := by
  rw [modify, List.findIdx_cons]
  cases passes item with
  | true => rfl
  | false => rfl

/-- The item found stands at the position found. -/
theorem exists_findIdx?_of_find? {passes : α → Bool} {items : List α} {item : α}
    (found : items.find? passes = some item) :
    ∃ place, items.findIdx? passes = some place ∧ items[place]? = some item := by
  rw [List.find?_eq_getElem?_findIdx] at found
  obtain ⟨inside, _⟩ := List.getElem?_eq_some_iff.mp found
  exact ⟨items.findIdx passes, List.findIdx?_eq_some_iff_findIdx_eq.mpr ⟨inside, rfl⟩, found⟩

/-- Position by position: the first item that passes is changed, and nothing else. -/
theorem getElem?_modify (passes : α → Bool) (change : α → α) (items : List α) (place : Nat) :
    (modify passes change items)[place]? =
      if items.findIdx? passes = some place then items[place]?.map change else items[place]? := by
  rw [modify, List.getElem?_modify]
  cases standing : items[place]? with
  | none => simp
  | some item =>
      obtain ⟨inside, _⟩ := List.getElem?_eq_some_iff.mp standing
      by_cases first : items.findIdx passes = place <;>
        simp [List.findIdx?_eq_some_iff_findIdx_eq, inside, first]

theorem mem_modify (passes : α → Bool) (change : α → α) {items : List α} {item : α}
    (member : item ∈ modify passes change items) :
    item ∈ items ∨ ∃ before ∈ items, item = change before := by
  obtain ⟨place, here⟩ := List.mem_iff_getElem?.mp member
  rw [getElem?_modify] at here
  split at here
  · obtain ⟨before, there, rfl⟩ := Option.map_eq_some_iff.mp here
    exact Or.inr ⟨before, List.mem_of_getElem? there, rfl⟩
  · exact Or.inl (List.mem_of_getElem? here)

/-- The item found before the change is the one that is changed. -/
theorem find?_modify (passes : α → Bool) (change : α → α) (items : List α)
    (kept : ∀ item, passes item = true → passes (change item) = true) :
    (modify passes change items).find? passes = (items.find? passes).map change := by
  induction items with
  | nil => rfl
  | cons item rest ih =>
      by_cases passed : passes item
      · simp [modify_cons, passed, kept item passed]
      · simp [modify_cons, passed, ih]

/-- The items before the first that passes stay, and so do those after it. -/
theorem modify_append_cons (passes : α → Bool) (change : α → α) (earlier later : List α) (item : α)
    (passed : passes item = true) (failed : ∀ other ∈ earlier, passes other = false) :
    modify passes change (earlier ++ item :: later) = earlier ++ change item :: later := by
  induction earlier with
  | nil => simp [modify_cons, passed]
  | cons first rest ih =>
      obtain ⟨firstFailed, others⟩ := List.forall_mem_cons.mp failed
      simp [modify_cons, firstFailed, ih others]

/-- Only the item found is ever changed, so the change may be worked out from it beforehand. -/
theorem modify_found (passes : α → Bool) (change : α → α) (items : List α) (item : α)
    (found : items.find? passes = some item) :
    modify passes (fun _ => change item) items = modify passes change items := by
  induction items with
  | nil => rfl
  | cons first rest ih =>
      by_cases passed : passes first
      · have same : first = item := by simpa [passed] using found
        subst same
        simp [modify_cons, passed]
      · have later : rest.find? passes = some item := by simpa [passed] using found
        simp [modify_cons, passed, ih later]

/-- A view that the change keeps is kept throughout. -/
theorem map_modify (view : α → β) (passes : α → Bool) (change : α → α) (items : List α)
    (kept : ∀ item, passes item = true → view (change item) = view item) :
    (modify passes change items).map view = items.map view := by
  induction items with
  | nil => rfl
  | cons item rest ih =>
      by_cases passed : passes item
      · simp [modify_cons, passed, kept item passed]
      · simp [modify_cons, passed, ih]

/-- The change may be made before or after the items are mapped, where the two agree on one item. -/
theorem modify_map (mapping : α → β) (passes : β → Bool) (change : α → α) (mapped : β → β)
    (items : List α) (agree : ∀ item, mapped (mapping item) = mapping (change item)) :
    modify passes mapped (items.map mapping) =
      (modify (passes ∘ mapping) change items).map mapping := by
  induction items with
  | nil => rfl
  | cons item rest ih =>
      by_cases passed : passes (mapping item)
      · simp [modify_cons, passed, agree]
      · simp [modify_cons, passed, ih]

/-- Of the items that pass, the change is made to the first, and the others stay. -/
theorem filter_modify (passes : α → Bool) (change : α → α) (items : List α) (item : α)
    (found : items.find? passes = some item) (kept : passes (change item) = true) :
    ∃ rest, items.filter passes = item :: rest ∧
      (modify passes change items).filter passes = change item :: rest := by
  induction items with
  | nil => cases found
  | cons first rest ih =>
      by_cases passed : passes first
      · have same : first = item := by simpa [passed] using found
        subst same
        exact ⟨rest.filter passes, by simp [passed], by simp [modify_cons, passed, kept]⟩
      · have later : rest.find? passes = some item := by simpa [passed] using found
        obtain ⟨others, before, after⟩ := ih later
        exact ⟨others, by simp [passed, before], by simp [modify_cons, passed, after]⟩

/-- A test that neither the changed item nor its change passes sees no change. -/
theorem filter_modify_of_apart (passes keeps : α → Bool) (change : α → α) (items : List α)
    (apart : ∀ item, passes item = true → keeps item = false ∧ keeps (change item) = false) :
    (modify passes change items).filter keeps = items.filter keeps := by
  induction items with
  | nil => rfl
  | cons first rest ih =>
      by_cases passed : passes first
      · obtain ⟨before, after⟩ := apart first passed
        simp [modify_cons, passed, before, after]
      · simp [modify_cons, passed, List.filter_cons, ih]

theorem find?_modify_of_apart (passes keeps : α → Bool) (change : α → α) (items : List α)
    (apart : ∀ item, passes item = true → keeps item = false ∧ keeps (change item) = false) :
    (modify passes change items).find? keeps = items.find? keeps := by
  rw [← List.head?_filter, filter_modify_of_apart passes keeps change items apart,
    List.head?_filter]

/-- Two changes under one test come down to one change. -/
theorem modify_modify (passes : α → Bool) (change other : α → α) (items : List α)
    (kept : ∀ item, passes item = true → passes (other item) = true) :
    modify passes change (modify passes other items) =
      modify passes (fun item => change (other item)) items := by
  induction items with
  | nil => rfl
  | cons first rest ih =>
      by_cases passed : passes first
      · simp [modify_cons, passed, kept first passed]
      · simp [modify_cons, passed, ih]

/-- Changes of items that no two tests share may be made in either order. -/
theorem modify_comm_of_apart (passes keeps : α → Bool) (change other : α → α) (items : List α)
    (apart : ∀ item, passes item = true →
      passes (change item) = true ∧ keeps item = false ∧ keeps (change item) = false)
    (otherKept : ∀ item, keeps item = true → passes (other item) = false) :
    modify passes change (modify keeps other items) =
      modify keeps other (modify passes change items) := by
  induction items with
  | nil => rfl
  | cons first rest ih =>
      by_cases passed : passes first
      · obtain ⟨_, before, after⟩ := apart first passed
        simp [modify_cons, passed, before, after]
      · by_cases held : keeps first
        · simp [modify_cons, passed, held, otherKept first held]
        · simp [modify_cons, passed, held, ih]

end MethodPatch.FirstMatch
