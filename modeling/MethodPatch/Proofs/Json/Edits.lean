import MethodPatch.Json.Record
import Mathlib.Data.List.Basic
import Mathlib.Logic.Relation

set_option autoImplicit false

namespace MethodPatch.Json

variable {α : Type}

/-- The members of one object stand in another order, at any depth. -/
inductive Reordered : Json → Json → Prop where
  | members {before after : List (Option String × Json)} (order : before.Perm after) :
      Reordered (.object before) (.object after)
  | item {front back : List Json} {before after : Json} (inner : Reordered before after) :
      Reordered (.array (front ++ before :: back)) (.array (front ++ after :: back))
  | value {front back : List (Option String × Json)} {key : Option String} {before after : Json}
      (inner : Reordered before after) :
      Reordered (.object (front ++ (key, before) :: back)) (.object (front ++ (key, after) :: back))

/-- Where the records stand in a value. -/
inductive Shape where
  | leaf
  | list (item : Shape)
  /-- A value under the name of its kind. -/
  | tagged (content : String → Shape)
  | record (record : Record) (field : String → Shape)

namespace Shape

/-- A record whose fields hold no records. -/
def flat (keys : Record) : Shape := .record keys fun _ => .leaf

/-- One member with a key that its record does not know is added, at any depth. -/
inductive Grown : Shape → Json → Json → Prop where
  | here {known : Record} {field : String → Shape} {front back : List (Option String × Json)}
      {key : String} {value : Json} (undeclared : key ∉ known.keys) :
      Grown (.record known field) (.object (front ++ back))
        (.object (front ++ (some key, value) :: back))
  | member {known : Record} {field : String → Shape} {front back : List (Option String × Json)}
      {key : String} {before after : Json} (declared : key ∈ known.keys)
      (inner : Grown (field key) before after) :
      Grown (.record known field) (.object (front ++ (some key, before) :: back))
        (.object (front ++ (some key, after) :: back))
  | field {known : Record} {field : String → Shape} {front back : List Json} {key : String}
      {before after : Json} (declared : key ∈ known.keys)
      (place : known.keys.idxOf key = front.length) (inner : Grown (field key) before after) :
      Grown (.record known field) (.array (front ++ before :: back))
        (.array (front ++ after :: back))
  | item {item : Shape} {front back : List Json} {before after : Json}
      (inner : Grown item before after) :
      Grown (.list item) (.array (front ++ before :: back)) (.array (front ++ after :: back))
  | content {content : String → Shape} {tag : String} {before after : Json}
      (inner : Grown (content tag) before after) :
      Grown (.tagged content) (.object [(some tag, before)]) (.object [(some tag, after)])

/-- One edit of a value of this shape: an object with its members in another order or, if `growing`,
a record with an added member. -/
def Edited (growing : Bool) (shape : Shape) (before after : Json) : Prop :=
  Reordered before after ∨ growing = true ∧ shape.Grown before after

end Shape

/-- The reader cannot tell an edited value from the value. -/
def Ignores (edit : Json → Json → Prop) (read : Json → Option α) : Prop :=
  ∀ before after, edit before after → read after = read before

/-- Nor can it tell the value after any number of edits. -/
theorem Ignores.run {edit : Json → Json → Prop} {read : Json → Option α}
    (ignores : Ignores edit read) {before after : Json}
    (edits : Relation.ReflTransGen edit before after) : read after = read before := by
  induction edits with
  | refl => rfl
  | tail _ last ih => exact (ignores _ _ last).trans ih

theorem ignores_map {β : Type} {edit : Json → Json → Prop} {read : Json → Option β}
    (make : β → α) (ignores : Ignores edit read) :
    Ignores edit fun value => (read value).map make :=
  fun before after edited => congrArg (Option.map make) (ignores before after edited)

/-- The reader reads nothing from an edited value. -/
def Refuses (edit : Json → Json → Prop) (read : Json → Option α) : Prop :=
  ∀ before after, edit before after → read after = none

theorem bind_eq_of_rel {β : Type} {related : β → β → Prop} {old new : Option β}
    (alike : Option.Rel related old new) (read : β → Option α)
    (same : ∀ held content, related held content → read content = read held) :
    new.bind read = old.bind read := by
  cases alike with
  | none => rfl
  | some alike => exact same _ _ alike

section Values

variable {shape : Shape} {growing : Bool} {read : Json → Option α}

/-- Scalars hold nothing to be edited. -/
theorem Shape.Edited.containers {before after : Json} (edited : shape.Edited growing before after) :
    (∃ items others, before = .array items ∧ after = .array others) ∨
      ∃ members others, before = .object members ∧ after = .object others := by
  rcases edited with reordered | ⟨_, grown⟩
  · cases reordered with
    | item => exact .inl ⟨_, _, rfl, rfl⟩
    | members | value => exact .inr ⟨_, _, rfl, rfl⟩
  · cases grown with
    | item | field => exact .inl ⟨_, _, rfl, rfl⟩
    | here | member | content => exact .inr ⟨_, _, rfl, rfl⟩

theorem ignores_of_scalar (array : ∀ items, read (.array items) = none)
    (object : ∀ members, read (.object members) = none) :
    Ignores (shape.Edited growing) read := by
  intro before after edited
  rcases edited.containers with ⟨_, _, rfl, rfl⟩ | ⟨_, _, rfl, rfl⟩
  · rw [array, array]
  · rw [object, object]

theorem ignores_asText : Ignores (shape.Edited growing) asText :=
  ignores_of_scalar (fun _ => rfl) fun _ => rfl

theorem ignores_asFlag : Ignores (shape.Edited growing) asFlag :=
  ignores_of_scalar (fun _ => rfl) fun _ => rfl

theorem ignores_asByte : Ignores (shape.Edited growing) asByte :=
  ignores_of_scalar (fun _ => rfl) fun _ => rfl

theorem ignores_asWord : Ignores (shape.Edited growing) asWord :=
  ignores_of_scalar (fun _ => rfl) fun _ => rfl

theorem ignores_asOption (ignores : Ignores (shape.Edited growing) read) :
    Ignores (shape.Edited growing) (asOption read) := by
  intro before after edited
  have same := congrArg (Option.map some) (ignores before after edited)
  rcases edited.containers with ⟨_, _, rfl, rfl⟩ | ⟨_, _, rfl, rfl⟩ <;> exact same

theorem asList_replace {front back : List Json} {before after : Json}
    (same : read after = read before) :
    asList read (.array (front ++ after :: back)) =
      asList read (.array (front ++ before :: back)) := by
  simp only [asList, List.mapM_append, List.mapM_cons, same]

theorem ignores_asList (ignores : Ignores (shape.Edited growing) read) :
    Ignores ((Shape.list shape).Edited growing) (asList read) := by
  intro before after edited
  rcases edited with reordered | ⟨grows, grown⟩
  · cases reordered with
    | members | value => rfl
    | item inner => exact asList_replace (ignores _ _ (.inl inner))
  · cases grown with
    | item inner => exact asList_replace (ignores _ _ (.inr ⟨grows, inner⟩))

theorem asTagged_of_length {members : List (Option String × Json)} (several : members.length ≠ 1) :
    asTagged (.object members) = none := by
  rcases members with _ | ⟨⟨_ | _, _⟩, _ | ⟨second, rest⟩⟩
  · rfl
  · rfl
  · rfl
  · exact absurd rfl several
  · rfl

/-- An object of one member keeps it and its name. -/
theorem asTagged_edited {content : String → Shape} {before after : Json}
    (edited : (Shape.tagged content).Edited growing before after) :
    Option.Rel (fun old new => old.1 = new.1 ∧
      (old.2 = new.2 ∨ (content old.1).Edited growing old.2 new.2))
      (asTagged before) (asTagged after) := by
  rcases edited with reordered | ⟨grows, grown⟩
  · cases reordered with
    | item => exact .none
    | @members before after order =>
        by_cases one : before.length = 1
        · obtain ⟨member, rfl⟩ := List.length_eq_one_iff.mp one
          obtain rfl := List.singleton_perm.mp order
          obtain ⟨_ | tag, value⟩ := member
          · exact .none
          · exact .some ⟨rfl, .inl rfl⟩
        · rw [asTagged_of_length one, asTagged_of_length (order.length_eq ▸ one)]
          exact .none
    | @value front back key before after inner =>
        by_cases one : front = [] ∧ back = []
        · obtain ⟨rfl, rfl⟩ := one
          cases key with
          | none => exact .none
          | some tag => exact .some ⟨rfl, .inr (.inl inner)⟩
        · have several (value : Json) : (front ++ (key, value) :: back).length ≠ 1 := by
            rw [List.length_append, List.length_cons]
            intro single
            exact one ⟨List.length_eq_zero_iff.mp (by omega), List.length_eq_zero_iff.mp (by omega)⟩
          rw [asTagged_of_length (several before), asTagged_of_length (several after)]
          exact .none
  · cases grown with
    | content inner => exact .some ⟨rfl, .inr (.inr ⟨grows, inner⟩)⟩

theorem asWordOf_object (words : List (String × α)) (members : List (Option String × Json)) :
    asWordOf words (.object members) = (asTagged (.object members)).bind fun tagged =>
      asWordOf words (.object [(some tagged.1, tagged.2)]) := by
  rcases members with _ | ⟨⟨_ | word, value⟩, _ | ⟨second, rest⟩⟩
  · rfl
  · rfl
  · rfl
  · rfl
  · cases value <;> rfl

/-- A container is not null, so an object with it is no word. -/
theorem asWordOf_container (words : List (String × α)) {before after : Json}
    (edited : shape.Edited growing before after) (word : String) :
    asWordOf words (.object [(some word, after)]) =
      asWordOf words (.object [(some word, before)]) := by
  rcases edited.containers with ⟨_, _, rfl, rfl⟩ | ⟨_, _, rfl, rfl⟩ <;> rfl

theorem ignores_asWordOf (words : List (String × α)) :
    Ignores (Shape.leaf.Edited growing) (asWordOf words) := by
  intro before after edited
  rcases edited with reordered | ⟨_, grown⟩
  · have edited : (Shape.tagged fun _ => .leaf).Edited growing before after := .inl reordered
    have same := bind_eq_of_rel (asTagged_edited edited)
      (fun tagged => asWordOf words (.object [(some tagged.1, tagged.2)]))
      fun (old, held) (new, content) edited => by
        obtain ⟨rfl, rfl | edited⟩ := edited
        · rfl
        · exact asWordOf_container words edited _
    cases reordered with
    | item => rfl
    | members | value => rw [asWordOf_object, asWordOf_object, same]
  · cases grown

theorem refuses_asList (refuses : Refuses shape.Grown read) :
    Refuses (Shape.list shape).Grown (asList read) := by
  intro before after grown
  cases grown with
  | item inner => simp [asList, List.mapM_append, List.mapM_cons, refuses _ _ inner]

theorem refuses_asOption (refuses : Refuses shape.Grown read) :
    Refuses shape.Grown (asOption read) := by
  intro before after grown
  have refused := congrArg (Option.map some) (refuses before after grown)
  have edited : shape.Edited true before after := .inr ⟨rfl, grown⟩
  rcases edited.containers with ⟨_, _, rfl, rfl⟩ | ⟨_, _, rfl, rfl⟩ <;> exact refused

end Values

section Records

variable {known : Record} {edit : String → Json → Json → Prop}

/-- What stands for a field is the same, or an edited value. -/
inductive Slot.Edited (edit : Json → Json → Prop) : Slot → Slot → Prop where
  | same (slot : Slot) : Slot.Edited edit slot slot
  | given {before after : Json} (edited : edit before after) :
      Slot.Edited edit (.given before) (.given after)

namespace Slot.Edited

variable {edit : Json → Json → Prop} {read : Json → Option α} {before after : Slot}

theorem required (edited : Slot.Edited edit before after) (ignores : Ignores edit read) :
    after.required read = before.required read := by
  cases edited with
  | same => rfl
  | given edited => exact ignores _ _ edited

theorem orElse (edited : Slot.Edited edit before after) (absent : α) (ignores : Ignores edit read) :
    after.orElse absent read = before.orElse absent read := by
  cases edited with
  | same => rfl
  | given edited => exact ignores _ _ edited

theorem optional (edited : Slot.Edited edit before after) (ignores : Ignores edit (asOption read)) :
    after.optional read = before.optional read :=
  edited.orElse none ignores

end Slot.Edited

/-- Of each field of a record stands the same in both, or an edited value. -/
def SlotsEdited (known : Record) (edit : String → Json → Json → Prop)
    (before after : String → Slot) : Prop :=
  ∀ key ∈ known.keys, Slot.Edited (edit key) (before key) (after key)

namespace Record

theorem slots?_object {before after : List (Option String × Json)}
    (admitted : known.admits after = known.admits before)
    (edited : known.admits before = true →
      SlotsEdited known edit (memberSlot before) (memberSlot after)) :
    Option.Rel (SlotsEdited known edit) (known.slots? (.object before))
      (known.slots? (.object after)) := by
  rw [slots?, slots?, admitted]
  by_cases admits : known.admits before = true
  · rw [if_pos admits, if_pos admits]
    exact .some (edited admits)
  · rw [if_neg admits, if_neg admits]
    exact .none

theorem slots?_array {before after : List Json} (length : after.length = before.length)
    (edited : SlotsEdited known edit (itemSlot known.keys before) (itemSlot known.keys after)) :
    Option.Rel (SlotsEdited known edit) (known.slots? (.array before))
      (known.slots? (.array after)) := by
  rw [slots?, slots?, length]
  by_cases short : before.length ≤ known.keys.length
  · rw [if_pos short, if_pos short]
    exact .some edited
  · rw [if_neg short, if_neg short]
    exact .none

theorem admits_of_perm {before after : List (Option String × Json)} (order : before.Perm after) :
    known.admits after = known.admits before := by
  have repeated (key : String) : (membersOf after key).length = (membersOf before key).length :=
    (order.filter _).length_eq.symm
  simp only [admits, repeated]
  rw [order.all_eq, order.all_eq]

theorem length_membersOf_of_admits {members : List (Option String × Json)}
    (admits : known.admits members = true) {key : String} (declared : key ∈ known.keys) :
    (membersOf members key).length ≤ 1 := by
  simp only [Record.admits, Bool.and_eq_true, List.all_eq_true, decide_eq_true_eq] at admits
  exact admits.1.2 key declared

theorem memberSlot_of_mem {members : List (Option String × Json)} {key : String} {value : Json}
    (member : (some key, value) ∈ members) (unrepeated : (membersOf members key).length ≤ 1) :
    memberSlot members key = .given value := by
  have found : (some key, value) ∈ membersOf members key :=
    List.mem_filter.mpr ⟨member, beq_self_eq_true _⟩
  have one := Nat.le_antisymm unrepeated (List.length_pos_of_mem found)
  obtain ⟨only, standing⟩ := List.length_eq_one_iff.mp one
  rw [standing, List.mem_singleton] at found
  rw [memberSlot, standing, ← found]

/-- Of a key that is not repeated there is no other order. -/
theorem memberSlot_of_perm {before after : List (Option String × Json)} (order : before.Perm after)
    {key : String} (unrepeated : (membersOf before key).length ≤ 1) :
    memberSlot after key = memberSlot before key := by
  have found : (membersOf before key).Perm (membersOf after key) := order.filter _
  have same : membersOf after key = membersOf before key := by
    rcases Nat.le_one_iff_eq_zero_or_eq_one.mp unrepeated with none | one
    · rw [List.length_eq_zero_iff.mp none] at found ⊢
      exact found.symm.eq_nil
    · obtain ⟨only, standing⟩ := List.length_eq_one_iff.mp one
      rw [standing] at found ⊢
      exact (List.singleton_perm.mp found).symm
  rw [memberSlot, memberSlot, same]

section Replace

variable {front back : List (Option String × Json)} {key : Option String} {before after : Json}

theorem admits_replace : known.admits (front ++ (key, after) :: back) =
    known.admits (front ++ (key, before) :: back) := by
  simp only [admits, membersOf, List.filter_append, List.filter_cons, List.length_append,
    apply_ite List.length, List.length_cons, List.all_append, List.all_cons]

theorem slotsEdited_replace (edited : ∀ name, key = some name → edit name before after) :
    SlotsEdited known edit (memberSlot (front ++ (key, before) :: back))
      (memberSlot (front ++ (key, after) :: back)) := by
  intro name _
  simp only [memberSlot, membersOf, List.filter_append, List.filter_cons]
  cases front.filter fun member => member.1 == some name with
  | cons first rest => exact .same _
  | nil =>
      by_cases here : (key == some name) = true
      · simp only [here, if_true, List.nil_append]
        exact .given (edited name (eq_of_beq here))
      · simp only [here, List.nil_append]
        exact .same _

end Replace

theorem slotsEdited_item {front back : List Json} {before after : Json}
    (edited : ∀ key ∈ known.keys, known.keys.idxOf key = front.length → edit key before after) :
    SlotsEdited known edit (itemSlot known.keys (front ++ before :: back))
      (itemSlot known.keys (front ++ after :: back)) := by
  intro key declared
  rw [itemSlot, itemSlot]
  rcases Nat.lt_trichotomy (known.keys.idxOf key) front.length with earlier | here | later
  · rw [List.getElem?_append_left earlier, List.getElem?_append_left earlier]
    exact .same _
  · rw [List.getElem?_append_right (Nat.le_of_eq here.symm),
      List.getElem?_append_right (Nat.le_of_eq here.symm), here, Nat.sub_self]
    exact .given (edited key declared here)
  · obtain ⟨behind, place⟩ := Nat.exists_eq_add_of_lt later
    rw [List.getElem?_append_right (Nat.le_of_lt later),
      List.getElem?_append_right (Nat.le_of_lt later), place,
      show front.length + behind + 1 - front.length = behind + 1 by omega, List.getElem?_cons_succ,
      List.getElem?_cons_succ]
    exact .same _

section Add

variable {front back : List (Option String × Json)} {key : String} {value : Json}

theorem membersOf_add (undeclared : key ∉ known.keys) {name : String}
    (declared : name ∈ known.keys) :
    membersOf (front ++ (some key, value) :: back) name = membersOf (front ++ back) name := by
  have other : ¬ (some key == some name) = true := fun same =>
    undeclared (Option.some.inj (eq_of_beq same) ▸ declared)
  simp only [membersOf, List.filter_append, List.filter_cons, if_neg other]

theorem admits_add (tolerant : known.closed = false) (undeclared : key ∉ known.keys) :
    known.admits (front ++ (some key, value) :: back) = known.admits (front ++ back) := by
  have repeated : (known.keys.all fun name =>
      decide ((membersOf (front ++ (some key, value) :: back) name).length ≤ 1)) =
        known.keys.all fun name => decide ((membersOf (front ++ back) name).length ≤ 1) := by
    rw [Bool.eq_iff_iff, List.all_eq_true, List.all_eq_true]
    exact forall₂_congr fun name declared => by rw [membersOf_add undeclared declared]
  simp only [admits, repeated, tolerant, List.all_append, List.all_cons, Option.isSome_some,
    Bool.true_and, Bool.not_false, Bool.true_or]

theorem not_admits_add (strict : known.closed = true) (undeclared : key ∉ known.keys) :
    known.admits (front ++ (some key, value) :: back) = false := by
  simp [admits, strict, undeclared]

end Add

variable {field : String → Shape} {growing : Bool} {before after : Json}

/-- Of an edited record at most one field is edited, if added members are passed over. -/
theorem slots?_edited (tolerant : growing = true → known.closed = false)
    (edited : (Shape.record known field).Edited growing before after) :
    Option.Rel (SlotsEdited known fun key => (field key).Edited growing) (known.slots? before)
      (known.slots? after) := by
  rcases edited with reordered | ⟨grows, grown⟩
  · cases reordered with
    | members order =>
        refine slots?_object (admits_of_perm order) fun admits key declared => ?_
        rw [memberSlot_of_perm order (length_membersOf_of_admits admits declared)]
        exact .same _
    | item inner =>
        exact slots?_array (by simp) (slotsEdited_item fun _ _ _ => .inl inner)
    | value inner =>
        exact slots?_object admits_replace fun _ => slotsEdited_replace fun _ _ => .inl inner
  · cases grown with
    | here undeclared =>
        refine slots?_object (admits_add (tolerant grows) undeclared) fun _ name declared => ?_
        rw [memberSlot, memberSlot, membersOf_add undeclared declared]
        exact .same _
    | member declared inner =>
        refine slots?_object admits_replace fun _ => slotsEdited_replace fun name same => ?_
        exact Option.some.inj same ▸ .inr ⟨grows, inner⟩
    | field declared place inner =>
        refine slots?_array (by simp) (slotsEdited_item fun name known here => ?_)
        exact (List.idxOf_inj known).mp (here.trans place.symm) ▸ .inr ⟨grows, inner⟩

/-- A closed record that can be read though a member was added has it inside one of its fields. -/
theorem slots?_grown (strict : known.closed = true)
    (grown : (Shape.record known field).Grown before after) {slot : String → Slot}
    (standing : known.slots? after = some slot) :
    ∃ key value grownValue, slot key = .given grownValue ∧
      (field key).Grown value grownValue := by
  cases grown with
  | here undeclared =>
      rw [slots?, not_admits_add strict undeclared] at standing
      cases standing
  | @member _ _ front back key value grownValue declared inner =>
      rw [slots?] at standing
      split at standing
      · rename_i admits
        have unrepeated := length_membersOf_of_admits admits declared
        refine ⟨key, value, grownValue, ?_, inner⟩
        rw [← Option.some.inj standing]
        exact memberSlot_of_mem (List.mem_append_right _ List.mem_cons_self) unrepeated
      · cases standing
  | @field _ _ front back key value grownValue declared place inner =>
      rw [slots?] at standing
      split at standing
      · refine ⟨key, value, grownValue, ?_, inner⟩
        rw [← Option.some.inj standing, itemSlot, place,
          List.getElem?_append_right (Nat.le_refl _), Nat.sub_self, List.getElem?_cons_zero]
      · cases standing

end Record

/-- A record is read alike before and after an edit if what stands for its fields is. -/
theorem ignores_record {field : String → Shape} {growing : Bool}
    (tolerant : growing = true → known.closed = false) {read : (String → Slot) → Option α}
    (fields : ∀ before after,
      SlotsEdited known (fun key => (field key).Edited growing) before after →
        read after = read before) :
    Ignores ((Shape.record known field).Edited growing) fun value =>
      (known.slots? value).bind read := by
  intro before after edited
  exact bind_eq_of_rel (Record.slots?_edited tolerant edited) read fields

/-- A closed record refuses an added member if its fields do. -/
theorem refuses_record {field : String → Shape} (strict : known.closed = true)
    {read : (String → Slot) → Option α}
    (fields : ∀ slot key value grownValue, slot key = .given grownValue →
      (field key).Grown value grownValue → read slot = none) :
    Refuses (Shape.record known field).Grown fun value => (known.slots? value).bind read := by
  intro before after grown
  show (known.slots? after).bind read = none
  cases standing : known.slots? after with
  | none => rfl
  | some slot =>
      obtain ⟨key, value, grownValue, given, inner⟩ := Record.slots?_grown strict grown standing
      exact fields slot key value grownValue given inner

end Records

end MethodPatch.Json
