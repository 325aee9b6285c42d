import MethodPatch.Dump.Scan
import MethodPatch.Matching.Format
import MethodPatch.Proofs.Json.RoundTrip

set_option autoImplicit false

namespace MethodPatch

open Json

namespace Json

variable {α : Type} {levels : Nat}

@[simp] theorem isPlain_ofFlag (value : Bool) : IsPlain levels (ofFlag value) := .flag value

@[simp] theorem isPlain_ofText (content : String) : IsPlain levels (ofText content) := .text content

@[simp] theorem isPlain_ofByte (value : UInt8) : IsPlain levels (ofByte value) :=
  .word value.toNat (Nat.lt_trans value.toNat_lt (by decide))

@[simp] theorem isPlain_ofWord (value : UInt32) : IsPlain levels (ofWord value) :=
  .word value.toNat value.toNat_lt

theorem isPlain_ofOption {write : α → Json} (plain : ∀ value, IsPlain levels (write value))
    (value : Option α) : IsPlain levels (ofOption write value) := by
  cases value with
  | none => exact .null
  | some content => exact plain content

theorem isPlain_ofList {write : α → Json} (plain : ∀ value, IsPlain levels (write value))
    (values : List α) : IsPlain (levels + 1) (ofList write values) :=
  .array (List.forall_mem_map.mpr fun value _ => plain value)

theorem isPlain_ofMembers {members : List (String × Json)}
    (plain : ∀ member ∈ members, IsPlain levels member.2) :
    IsPlain (levels + 1) (ofMembers members) :=
  .object (List.forall_mem_map.mpr fun _ _ => rfl) (List.forall_mem_map.mpr plain)

theorem isPlain_ofTagged {value : Json} (tag : String) (plain : IsPlain levels value) :
    IsPlain (levels + 1) (ofTagged tag value) :=
  isPlain_ofMembers (List.forall_mem_singleton.mpr plain)

end Json

section Plain

variable (levels : Nat)

@[simp] theorem Access.isPlain_toJson (access : Access) : IsPlain (levels + 1) access.toJson :=
  isPlain_ofMembers (by simp)

theorem LineEntry.isPlain_toJson (entry : LineEntry) : IsPlain (levels + 1) entry.toJson :=
  isPlain_ofMembers (by simp)

theorem Handler.isPlain_toJson (handler : Handler) : IsPlain (levels + 1) handler.toJson := by
  have caught : IsPlain levels (ofOption ofText handler.caught) :=
    isPlain_ofOption isPlain_ofText _
  exact isPlain_ofMembers (by simp [caught])

@[simp] theorem Dispatch.isPlain_toJson (dispatch : Dispatch) : IsPlain levels dispatch.toJson :=
  .text dispatch.label

theorem CallSite.isPlain_toJson (call : CallSite) : IsPlain (levels + 1) call.toJson :=
  isPlain_ofMembers (by simp)

theorem FieldUse.isPlain_toJson (use : FieldUse) : IsPlain (levels + 1) use.toJson :=
  isPlain_ofMembers (by simp)

theorem Operation.isPlain_toJson (operation : Operation) :
    IsPlain (levels + 2) operation.toJson := by
  cases operation with
  | invoke call => exact isPlain_ofTagged "invoke" (call.isPlain_toJson levels)
  | field use => exact isPlain_ofTagged "field" (use.isPlain_toJson levels)
  | newArray component dimensions =>
      exact isPlain_ofTagged "new_array" (isPlain_ofMembers (by simp))
  | other opcode => exact isPlain_ofTagged "other" (isPlain_ofByte opcode)
  | newObject type => exact isPlain_ofTagged "new" (.text type)
  | checkCast type => exact isPlain_ofTagged "check_cast" (.text type)
  | instanceOf type => exact isPlain_ofTagged "instance_of" (.text type)
  | loadText content => exact isPlain_ofTagged "const_string" (.text content)

theorem Instruction.isPlain_toJson (instruction : Instruction) :
    IsPlain (levels + 3) instruction.toJson := by
  have operation := instruction.operation.isPlain_toJson levels
  exact isPlain_ofMembers (by simp [operation])

theorem Method.isPlain_toJson (method : Method) : IsPlain (levels + 5) method.toJson := by
  have access := method.access.isPlain_toJson (levels + 3)
  have bytecode : IsPlain (levels + 4) (ofList ofByte method.bytecode) :=
    isPlain_ofList isPlain_ofByte _
  have instructions := isPlain_ofList (Instruction.isPlain_toJson levels) method.instructions
  have lines := isPlain_ofList (LineEntry.isPlain_toJson (levels + 2)) method.lines
  have handlers := isPlain_ofList (Handler.isPlain_toJson (levels + 2)) method.handlers
  exact isPlain_ofMembers (by simp [access, bytecode, instructions, lines, handlers])

theorem Class.isPlain_toJson (owner : Class) : IsPlain (levels + 7) owner.toJson := by
  have parent : IsPlain (levels + 6) (ofOption ofText owner.parent) :=
    isPlain_ofOption isPlain_ofText _
  have methods := isPlain_ofList (Method.isPlain_toJson levels) owner.methods
  exact isPlain_ofMembers (by simp [parent, methods])

theorem ExpressionKind.isPlain_toJson (kind : ExpressionKind) : IsPlain levels kind.toJson :=
  .text kind.label

theorem FieldAccess.isPlain_toJson (access : FieldAccess) : IsPlain levels access.toJson :=
  .text access.label

theorem Criteria.isPlain_toJson (criteria : Criteria) : IsPlain (levels + 1) criteria.toJson := by
  have kind := criteria.kind.isPlain_toJson levels
  have access (mode : FieldAccess) := mode.isPlain_toJson levels
  apply isPlain_ofMembers
  simp only [List.forall_mem_append, List.forall_mem_singleton, List.forall_mem_map]
  exact ⟨⟨⟨⟨kind, fun _ _ => .text _⟩, fun _ _ => .text _⟩, fun _ _ => .text _⟩,
    fun mode _ => access mode⟩

theorem SequenceSpec.isPlain_toJson (spec : SequenceSpec) : IsPlain (levels + 3) spec.toJson := by
  have before := isPlain_ofList (Criteria.isPlain_toJson levels) spec.before
  have last := isPlain_ofOption (Criteria.isPlain_toJson (levels + 1)) spec.last
  exact isPlain_ofMembers (by simp [before, last])

theorem Position.isPlain_toJson (position : Position) : IsPlain (levels + 1) position.toJson := by
  have line : IsPlain levels (ofOption ofWord position.line) :=
    isPlain_ofOption isPlain_ofWord _
  exact isPlain_ofMembers (by simp [line])

theorem Anchor.isPlain_toJson (anchor : Anchor) : IsPlain (levels + 1) anchor.toJson := by
  have line : IsPlain levels (ofOption ofWord anchor.line) := isPlain_ofOption isPlain_ofWord _
  have kind := anchor.kind.isPlain_toJson levels
  exact isPlain_ofMembers (by simp [line, kind])

end Plain

/-- An array that reads as a class begins with the name of the class. -/
theorem Class.exists_name_of_ofJson? {items : List Json} {owner : Class}
    (read : Class.ofJson? (.array items) = some owner) :
    ∃ name rest, items = ofText name :: rest := by
  rw [ofJson?] at read
  obtain ⟨slot, slots, fields⟩ := Option.bind_eq_some_iff.mp read
  obtain ⟨name, named, _⟩ := Option.bind_eq_some_iff.mp fields
  have standing : slot = Record.itemSlot record.keys items := by
    rw [Record.slots?] at slots
    split at slots
    · exact (Option.some.inj slots).symm
    · cases slots
  subst standing
  cases items with
  | nil => cases named
  | cons first rest =>
      have text : asText first = some name := named
      cases first with
      | string content =>
          cases text
          exact ⟨name, rest, rfl⟩
      | _ => cases text

/-- No value is both a class and a list of classes. -/
theorem Class.ofJson?_eq_none_or (value : Json) :
    Class.ofJson? value = none ∨ asList Class.ofJson? value = none := by
  cases value with
  | array items =>
      cases read : Class.ofJson? (.array items) with
      | none => exact Or.inl rfl
      | some owner =>
          obtain ⟨name, rest, rfl⟩ := Class.exists_name_of_ofJson? read
          exact Or.inr rfl
  | _ => exact Or.inr rfl

/-- That a dump is tried as one class first hides no list. -/
theorem dumpOfJson?_of_list {value : Json} {classes : List Class}
    (listed : asList Class.ofJson? value = some classes) : dumpOfJson? value = some classes := by
  cases Class.ofJson?_eq_none_or value with
  | inl none => rw [dumpOfJson?, none, listed]
  | inr none =>
      rw [none] at listed
      cases listed

/-- The class as it is read from the first file. -/
def Class.unplaced (owner : Class) : Class := { owner with artifact := 0 }

/-- Whatever is written is read back, up to what the form does not keep: from its text on one line
as from the indented one, and from a file as from a text. -/
def Restores {α : Type} (write : α → Json) (read : Json → Option α) (kept : α → α) : Prop :=
  ∀ value, ∀ text ∈ [(write value).compact, (write value).pretty],
    (Json.read? text).bind read = some (kept value) ∧
      (Json.readFile? (Text.bytes text)).bind read = some (kept value)

theorem restores {α : Type} {write : α → Json} {read : Json → Option α} {kept : α → α}
    (plain : ∀ value, IsPlain deepest (write value))
    (back : ∀ value, read (write value) = some (kept value)) : Restores write read kept := by
  intro value text written
  have spelled : ∃ spacing : Spacing, spacing.IsBlank ∧
      text = String.ofList ((write value).write spacing 0) := by
    simp only [List.mem_cons, List.not_mem_nil, or_false] at written
    rcases written with rfl | rfl
    · exact ⟨.compact, Spacing.isBlank_compact, rfl⟩
    · exact ⟨.pretty, Spacing.isBlank_pretty, rfl⟩
  obtain ⟨spacing, blank, rfl⟩ := spelled
  constructor
  · rw [(plain value).read?_write blank]
    exact back value
  · rw [(plain value).readFile?_write blank]
    exact back value

theorem DumpFile.read_pretty (path : String) (classes : List Class) :
    DumpFile.read ⟨path, some (Text.bytes (ofList Class.toJson classes).pretty)⟩ =
      .ok ⟨path, (Text.bytes (ofList Class.toJson classes).pretty).length,
        classes.map Class.unplaced⟩ := by
  have plain : IsPlain deepest (ofList Class.toJson classes) :=
    isPlain_ofList (Class.isPlain_toJson 119) classes
  have spelled : Json.readFile? (Text.bytes (ofList Class.toJson classes).pretty) =
      some (ofList Class.toJson classes) := plain.readFile?_write Spacing.isBlank_pretty
  have listed := dumpOfJson?_of_list
    (asList_ofList_map Class.ofJson? Class.toJson Class.unplaced Class.ofJson?_toJson classes)
  rw [DumpFile.read]
  simp only [spelled, Option.bind_some, listed]

/-- A dump that was written is scanned as the classes that it was written for. -/
theorem Scan.ofInput_of_write? {files after : FileSystem} {path : String} {classes : List Class}
    (dump : DumpFile.isDump path = true)
    (written : files.write? path (Text.bytes (ofList Class.toJson classes).pretty) = some after) :
    Scan.ofInput after path =
      .ok ⟨[⟨path, (Text.bytes (ofList Class.toJson classes).pretty).length, true⟩],
        classes.map Class.unplaced⟩ := by
  have content := files.contentOf?_of_write? after path _ written
  have scanned : Scan.ofFiles true [⟨path, after.contentOf? path⟩] =
      .ok ⟨[⟨path, (Text.bytes (ofList Class.toJson classes).pretty).length, true⟩],
        classes.map Class.unplaced⟩ := by
    have read : [DumpFile.mk path (after.contentOf? path)].mapM DumpFile.read =
        .ok [⟨path, (Text.bytes (ofList Class.toJson classes).pretty).length,
          classes.map Class.unplaced⟩] := by
      rw [content, List.mapM_cons, DumpFile.read_pretty]
      rfl
    have placed : (fun owner : Class => { owner with artifact := 0 }) ∘ Class.unplaced =
        Class.unplaced := rfl
    rw [Scan.ofFiles, read]
    simp only [List.zipIdx_singleton, List.map_singleton, List.flatMap_singleton, List.map_map,
      placed]
  unfold ofInput
  split
  · rename_i entries standing
    rw [FileSystem.contentOf?, standing] at content
    cases content
  · rw [if_pos dump, scanned]

/-- Everything that dumps and matchers consist of is restored from its text, a class but for its
position among the scanned files. A value that is a list of classes is read as that list, for it is
no class, and a dump that was written is scanned as the classes it was written for. -/
theorem dump_round_trip :
    Restores Class.toJson Class.ofJson? Class.unplaced ∧
      Restores Method.toJson Method.ofJson? id ∧
      Restores Access.toJson Access.ofJson? id ∧
      Restores LineEntry.toJson LineEntry.ofJson? id ∧
      Restores Handler.toJson Handler.ofJson? id ∧
      Restores Instruction.toJson Instruction.ofJson? id ∧
      Restores Operation.toJson Operation.ofJson? id ∧
      Restores CallSite.toJson CallSite.ofJson? id ∧
      Restores Dispatch.toJson Dispatch.ofJson? id ∧
      Restores FieldUse.toJson FieldUse.ofJson? id ∧
      Restores ExpressionKind.toJson ExpressionKind.ofJson? id ∧
      Restores FieldAccess.toJson FieldAccess.ofJson? id ∧
      Restores Criteria.toJson Criteria.ofJson? id ∧
      Restores SequenceSpec.toJson SequenceSpec.ofJson? id ∧
      Restores Anchor.toJson Anchor.ofJson? id ∧
      Restores Position.toJson Position.ofJson? id ∧
      (∀ value, Class.ofJson? value = none ∨ asList Class.ofJson? value = none) ∧
      (∀ value classes, asList Class.ofJson? value = some classes →
        dumpOfJson? value = some classes) ∧
      ∀ (files after : FileSystem) (path : String) (classes : List Class),
        DumpFile.isDump path = true →
        files.write? path (Text.bytes (ofList Class.toJson classes).pretty) = some after →
        Scan.ofInput after path =
          .ok ⟨[⟨path, (Text.bytes (ofList Class.toJson classes).pretty).length, true⟩],
            classes.map Class.unplaced⟩ :=
  ⟨restores (Class.isPlain_toJson 120) Class.ofJson?_toJson,
    restores (Method.isPlain_toJson 122) Method.ofJson?_toJson,
    restores (Access.isPlain_toJson 126) Access.ofJson?_toJson,
    restores (LineEntry.isPlain_toJson 126) LineEntry.ofJson?_toJson,
    restores (Handler.isPlain_toJson 126) Handler.ofJson?_toJson,
    restores (Instruction.isPlain_toJson 124) Instruction.ofJson?_toJson,
    restores (Operation.isPlain_toJson 125) Operation.ofJson?_toJson,
    restores (CallSite.isPlain_toJson 126) CallSite.ofJson?_toJson,
    restores (Dispatch.isPlain_toJson 127) Dispatch.ofJson?_toJson,
    restores (FieldUse.isPlain_toJson 126) FieldUse.ofJson?_toJson,
    restores (ExpressionKind.isPlain_toJson 127) ExpressionKind.ofJson?_toJson,
    restores (FieldAccess.isPlain_toJson 127) FieldAccess.ofJson?_toJson,
    restores (Criteria.isPlain_toJson 126) Criteria.ofJson?_toJson,
    restores (SequenceSpec.isPlain_toJson 124) SequenceSpec.ofJson?_toJson,
    restores (Anchor.isPlain_toJson 126) Anchor.ofJson?_toJson,
    restores (Position.isPlain_toJson 126) Position.ofJson?_toJson,
    Class.ofJson?_eq_none_or, fun _ _ => dumpOfJson?_of_list,
    fun _ _ _ _ => Scan.ofInput_of_write?⟩

/-- A dump of two classes, written beside other files and scanned from there. -/
theorem dump_round_trip_two_classes :
    let classes := ["app/Hud", "app/Menu"].map fun name =>
      (⟨name, some "app/Screen", false, [], 3⟩ : Class)
    let scanned := ["app/Hud", "app/Menu"].map fun name =>
      (⟨name, some "app/Screen", false, [], 0⟩ : Class)
    let content := Text.bytes (ofList Class.toJson classes).pretty
    let files : FileSystem :=
      ⟨.directory [("work", .directory [("plan.json", .file [])])], ["work"]⟩
    DumpFile.isDump "../work/dump.json" = true ∧
      ∃ after, files.write? "../work/dump.json" content = some after ∧
        Scan.ofInput after "../work/dump.json" =
          .ok ⟨[⟨"../work/dump.json", content.length, true⟩], scanned⟩ := by
  intro classes scanned content files
  have dump : DumpFile.isDump "../work/dump.json" = true := by decide +kernel
  have ready : (files.write? "../work/dump.json" content).isSome = true := by decide +kernel
  obtain ⟨after, written⟩ := Option.isSome_iff_exists.mp ready
  obtain ⟨_, _, _, _, _, _, _, _, _, _, _, _, _, _, _, _, _, _, scan⟩ := dump_round_trip
  exact ⟨dump, after, written, scan files after _ classes dump written⟩

end MethodPatch
