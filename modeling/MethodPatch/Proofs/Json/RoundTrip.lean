import MethodPatch.Proofs.Json.Parts
import MethodPatch.Text

set_option autoImplicit false

namespace MethodPatch.Json

/-- Numbers in the value are words, literals and keys are texts, and no more than `levels`
containers stand inside one another. -/
inductive IsPlain : Nat → Json → Prop
  | null {levels : Nat} : IsPlain levels .null
  | flag {levels : Nat} (value : Bool) : IsPlain levels (.bool value)
  | word {levels : Nat} (value : Nat) (short : value < UInt32.size) : IsPlain levels (ofNat value)
  | text {levels : Nat} (content : String) : IsPlain levels (ofText content)
  | array {levels : Nat} {items : List Json} (inside : ∀ item ∈ items, IsPlain levels item) :
      IsPlain (levels + 1) (.array items)
  | object {levels : Nat} {members : List (Option String × Json)}
      (keyed : ∀ member ∈ members, member.1.isSome = true)
      (inside : ∀ member ∈ members, IsPlain levels member.2) :
      IsPlain (levels + 1) (.object members)

/-- The spacing consists of blanks. -/
structure Spacing.IsBlank (spacing : Spacing) : Prop where
  before : ∀ level, ∀ letter ∈ spacing.before level, isBlank letter = true
  afterColon : ∀ letter ∈ spacing.afterColon, isBlank letter = true

theorem Spacing.isBlank_compact : Spacing.compact.IsBlank :=
  ⟨fun _ _ member => absurd member List.not_mem_nil, fun _ member => absurd member List.not_mem_nil⟩

theorem Spacing.isBlank_pretty : Spacing.pretty.IsBlank := by
  constructor
  · intro level letter member
    rcases List.mem_cons.mp member with rfl | indent
    · rfl
    · rw [List.eq_of_mem_replicate indent]
      rfl
  · intro letter member
    rw [List.mem_singleton.mp member]
    rfl

theorem skipBlanks_append {blanks : List Char} (blank : ∀ letter ∈ blanks, isBlank letter = true)
    (rest : List Char) : skipBlanks (blanks ++ rest) = skipBlanks rest :=
  List.dropWhile_append_of_pos blank

theorem skipBlanks_cons {letter : Char} (solid : isBlank letter = false) (rest : List Char) :
    skipBlanks (letter :: rest) = letter :: rest := by
  unfold skipBlanks
  rw [List.dropWhile_cons_of_neg]
  rw [solid]
  exact Bool.false_ne_true

theorem readValue_skipBlanks (fuel : Nat) {first second : List Char}
    (same : skipBlanks first = skipBlanks second) : readValue fuel first = readValue fuel second := by
  cases fuel with
  | zero => rfl
  | succ fuel => rw [readValue, readValue, same]

theorem readItems_skipBlanks (fuel : Nat) (items : List Json) {first second : List Char}
    (same : skipBlanks first = skipBlanks second) :
    readItems fuel items first = readItems fuel items second := by
  cases fuel with
  | zero => rfl
  | succ fuel => rw [readItems, readItems, readValue_skipBlanks fuel same]

theorem readMembers_skipBlanks (fuel : Nat) (members : List (Option String × Json))
    {first second : List Char} (same : skipBlanks first = skipBlanks second) :
    readMembers fuel members first = readMembers fuel members second := by
  cases fuel with
  | zero => rfl
  | succ fuel => rw [readMembers, readMembers, same]

variable {spacing : Spacing}

/-- The text of the value is read back, and the text after it is left. One step for each character
of the text is enough, wherever the value stands. -/
def IsReadBack (spacing : Spacing) (value : Json) : Prop :=
  ∀ (level fuel : Nat) (rest : List Char), (value.write spacing level).length ≤ fuel →
    Numeral.EndsBefore rest → readValue fuel (value.write spacing level ++ rest) = some (value, rest)

theorem endsBefore_of_isBlank {letter : Char} (rest : List Char) (blank : isBlank letter = true) :
    Numeral.EndsBefore (letter :: rest) := by
  apply Numeral.endsBefore_cons
  simp only [isBlank, Bool.or_eq_true, beq_iff_eq] at blank
  rcases blank with ((rfl | rfl) | rfl) | rfl <;> decide

theorem isBlank_of_isDigit {letter : Char} (isDigit : letter.isDigit = true) :
    isBlank letter = false := by
  rw [← Bool.not_eq_true]
  intro blank
  have noDigit := (endsBefore_of_isBlank [] blank letter rfl).1
  rw [isDigit] at noDigit
  cases noDigit

theorem endsBefore_append {blanks rest : List Char}
    (blank : ∀ letter ∈ blanks, isBlank letter = true) (ends : Numeral.EndsBefore rest) :
    Numeral.EndsBefore (blanks ++ rest) := by
  cases blanks with
  | nil => exact ends
  | cons letter more => exact endsBefore_of_isBlank _ (blank letter List.mem_cons_self)

theorem endsBefore_writeItems (blank : spacing.IsBlank) (level : Nat) (items : List Json)
    (rest : List Char) : Numeral.EndsBefore (writeItems spacing level items ++ rest) := by
  cases items with
  | nil =>
      rw [writeItems, List.append_assoc]
      exact endsBefore_append (blank.before level) (Numeral.endsBefore_cons _ (by decide))
  | cons item more =>
      rw [writeItems]
      exact Numeral.endsBefore_cons _ (by decide)

theorem endsBefore_writeMembers (blank : spacing.IsBlank) (level : Nat)
    (members : List (Option String × Json)) (rest : List Char) :
    Numeral.EndsBefore (writeMembers spacing level members ++ rest) := by
  cases members with
  | nil =>
      rw [writeMembers, List.append_assoc]
      exact endsBefore_append (blank.before level) (Numeral.endsBefore_cons _ (by decide))
  | cons member more =>
      rw [writeMembers]
      exact Numeral.endsBefore_cons _ (by decide)

/-- Items are read back up to the end of their array, after those that were read before. -/
theorem readItems_write (blank : spacing.IsBlank) (level : Nat) (item : Json) (items : List Json)
    (back : ∀ value ∈ item :: items, IsReadBack spacing value) (fuel : Nat) (before : List Json)
    (rest : List Char)
    (enough : (item.write spacing (level + 1) ++ writeItems spacing level items).length ≤ fuel) :
    readItems fuel before
        (item.write spacing (level + 1) ++ (writeItems spacing level items ++ rest)) =
      some (.array (before.reverse ++ item :: items), rest) := by
  -- Every item is followed by a character of its own, which pays for the step to the next one.
  induction items generalizing item fuel before with
  | nil =>
      rw [writeItems, List.length_append, List.length_append, List.length_singleton] at enough
      obtain ⟨fuel, rfl⟩ := Nat.exists_eq_succ_of_ne_zero (show fuel ≠ 0 by omega)
      have first := back item List.mem_cons_self (level + 1) fuel
        (writeItems spacing level [] ++ rest) (by omega) (endsBefore_writeItems blank level [] rest)
      have close : skipBlanks (writeItems spacing level [] ++ rest) = ']' :: rest := by
        rw [writeItems, List.append_assoc, skipBlanks_append (blank.before level)]
        exact skipBlanks_cons rfl rest
      rw [readItems, first]
      simp only [close, List.reverse_cons]
  | cons next others ih =>
      rw [writeItems, List.length_append, List.length_cons, List.append_assoc,
        List.length_append] at enough
      obtain ⟨fuel, rfl⟩ := Nat.exists_eq_succ_of_ne_zero (show fuel ≠ 0 by omega)
      have first := back item List.mem_cons_self (level + 1) fuel
        (writeItems spacing level (next :: others) ++ rest) (by omega)
        (endsBefore_writeItems blank level (next :: others) rest)
      have later := ih next (fun value member => back value (List.mem_cons_of_mem item member)) fuel
        (item :: before) (by omega)
      have blanks := readItems_skipBlanks fuel (item :: before)
        (skipBlanks_append (blank.before (level + 1))
          (next.write spacing (level + 1) ++ (writeItems spacing level others ++ rest)))
      rw [readItems, first]
      simp only [writeItems, List.cons_append, List.append_assoc]
      rw [skipBlanks_cons rfl]
      simp only [blanks, later, List.reverse_cons, List.append_assoc, List.singleton_append]

/-- What is written for a member. -/
def memberText (spacing : Spacing) (level : Nat) (key : String) (value : Json) : List Char :=
  Literal.write (some key) ++ ':' :: (spacing.afterColon ++ value.write spacing (level + 1))

/-- What is read once these members are: another one behind a comma, or the end of the object. -/
def afterMember (fuel : Nat) (members : List (Option String × Json)) (rest : List Char) :
    Option (Json × List Char) :=
  match skipBlanks rest with
  | ',' :: rest => readMembers fuel members rest
  | '}' :: rest => some (.object members.reverse, rest)
  | _ => none

/-- A member is read back, and the text after it is left. -/
theorem readMembers_memberText (blank : spacing.IsBlank) (level : Nat) (key : String) (value : Json)
    (back : IsReadBack spacing value) (fuel : Nat) (before : List (Option String × Json))
    (rest : List Char) (enough : (memberText spacing level key value).length ≤ fuel)
    (ends : Numeral.EndsBefore rest) :
    readMembers (fuel + 1) before (memberText spacing level key value ++ rest) =
      afterMember fuel ((some key, value) :: before) rest := by
  have short : (value.write spacing (level + 1)).length ≤ fuel := by
    rw [memberText, List.length_append, List.length_cons, List.length_append] at enough
    omega
  have text : memberText spacing level key value ++ rest =
      '"' :: (key.toList.flatMap Literal.escape ++ '"' :: (':' :: (spacing.afterColon ++
        (value.write spacing (level + 1) ++ rest)))) := by
    simp only [memberText, Literal.write, List.cons_append, List.append_assoc, List.nil_append]
  have content := back (level + 1) fuel rest short ends
  have blanks := readValue_skipBlanks fuel
    (skipBlanks_append blank.afterColon (value.write spacing (level + 1) ++ rest))
  rw [text, readMembers, skipBlanks_cons rfl]
  simp only [Literal.read_write, skipBlanks_cons (rfl : isBlank ':' = false), blanks, content]
  rfl

/-- Members are read back up to the end of their object, after those that were read before. -/
theorem readMembers_write (blank : spacing.IsBlank) (level : Nat) (key : String) (value : Json)
    (members : List (Option String × Json))
    (keyed : ∀ member ∈ members, member.1.isSome = true) (back : IsReadBack spacing value)
    (others : ∀ member ∈ members, IsReadBack spacing member.2) (fuel : Nat)
    (before : List (Option String × Json)) (rest : List Char)
    (enough : (memberText spacing level key value ++
      writeMembers spacing level members).length ≤ fuel) :
    readMembers fuel before
        (memberText spacing level key value ++ (writeMembers spacing level members ++ rest)) =
      some (.object (before.reverse ++ (some key, value) :: members), rest) := by
  induction members generalizing key value fuel before with
  | nil =>
      rw [writeMembers, List.length_append, List.length_append, List.length_singleton] at enough
      obtain ⟨fuel, rfl⟩ := Nat.exists_eq_succ_of_ne_zero (show fuel ≠ 0 by omega)
      have close : skipBlanks (writeMembers spacing level [] ++ rest) = '}' :: rest := by
        rw [writeMembers, List.append_assoc, skipBlanks_append (blank.before level)]
        exact skipBlanks_cons rfl rest
      rw [readMembers_memberText blank level key value back fuel before _ (by omega)
        (endsBefore_writeMembers blank level [] rest), afterMember, close]
      simp only [List.reverse_cons]
  | cons next more ih =>
      obtain ⟨name, content⟩ := next
      obtain ⟨nextKey, rfl⟩ := Option.isSome_iff_exists.mp (keyed _ List.mem_cons_self)
      have written : writeMembers spacing level ((some nextKey, content) :: more) =
          ',' :: (spacing.before (level + 1) ++ (memberText spacing level nextKey content ++
            writeMembers spacing level more)) := by
        rw [writeMembers, memberText, List.append_assoc]
      have lengths := enough
      rw [written, List.length_append, List.length_cons, List.length_append] at lengths
      obtain ⟨fuel, rfl⟩ := Nat.exists_eq_succ_of_ne_zero (show fuel ≠ 0 by omega)
      have later := ih nextKey content
        (fun member inside => keyed member (List.mem_cons_of_mem _ inside))
        (others _ List.mem_cons_self)
        (fun member inside => others member (List.mem_cons_of_mem _ inside)) fuel
        ((some key, value) :: before) (by omega)
      have blanks := readMembers_skipBlanks fuel ((some key, value) :: before)
        (skipBlanks_append (blank.before (level + 1))
          (memberText spacing level nextKey content ++ (writeMembers spacing level more ++ rest)))
      rw [readMembers_memberText blank level key value back fuel before _ (by omega)
        (endsBefore_writeMembers blank level _ rest), written, afterMember]
      simp only [List.cons_append, List.append_assoc]
      rw [skipBlanks_cons rfl]
      simp only [blanks, later, List.reverse_cons, List.append_assoc, List.singleton_append]

/-- The text of a plain value begins with neither a blank nor the end of an array. -/
theorem IsPlain.write_eq_cons {levels : Nat} {value : Json} (plain : IsPlain levels value)
    (spacing : Spacing) (level : Nat) :
    ∃ first rest, value.write spacing level = first :: rest ∧ isBlank first = false ∧
      first ≠ ']' := by
  cases plain with
  | null => exact ⟨_, _, rfl, rfl, by decide⟩
  | flag value => cases value <;> exact ⟨_, _, rfl, rfl, by decide⟩
  | word value short =>
      obtain ⟨first, rest, digits, isDigit, _⟩ := Numeral.toDigits_eq_cons value
      refine ⟨first, rest, ?_, isBlank_of_isDigit isDigit, ?_⟩
      · rw [ofNat, write, Numeral.write_ofNat, digits]
      · intro same
        subst same
        exact absurd isDigit (by decide)
  | text content => exact ⟨_, _, rfl, rfl, by decide⟩
  | @array _ items _ => cases items <;> exact ⟨_, _, rfl, rfl, by decide⟩
  | @object _ members _ _ => cases members <;> exact ⟨_, _, rfl, rfl, by decide⟩

/-- Behind a digit a number is read. -/
theorem readValue_of_isDigit {first : Char} (isDigit : first.isDigit = true) (fuel : Nat)
    (more : List Char) :
    readValue (fuel + 1) (first :: more) =
      (Numeral.read (first :: more)).map fun (numeral, rest) => (.number numeral, rest) := by
  rw [readValue, skipBlanks_cons (isBlank_of_isDigit isDigit)]
  split
  iterate 6
    rename_i same
    cases same
    exact absurd isDigit (by decide)
  cases Numeral.read (first :: more) <;> rfl

theorem isReadBack_ofNat (value : Nat) : IsReadBack spacing (ofNat value) := by
  intro level fuel rest enough ends
  obtain ⟨first, more, digits, isDigit, _⟩ := Numeral.toDigits_eq_cons value
  have text : (ofNat value).write spacing level = first :: more :=
    (Numeral.write_ofNat value).trans digits
  have number := Numeral.read_write_ofNat value ends
  rw [Numeral.write_ofNat, digits, List.cons_append] at number
  rw [text] at enough ⊢
  cases fuel with
  | zero => exact absurd enough (Nat.not_succ_le_zero _)
  | succ fuel =>
      rw [List.cons_append, readValue_of_isDigit isDigit, number]
      rfl

theorem isReadBack_ofText (content : String) : IsReadBack spacing (ofText content) := by
  intro level fuel rest enough _
  have written : (ofText content).write spacing level ++ rest =
      '"' :: (content.toList.flatMap Literal.escape ++ '"' :: rest) := by
    simp only [ofText, write, Literal.write, List.cons_append, List.append_assoc, List.nil_append]
  cases fuel with
  | zero => exact absurd enough (Nat.not_succ_le_zero _)
  | succ fuel =>
      rw [written, readValue, skipBlanks_cons rfl]
      simp only [Literal.read_write]
      rfl

/-- An array is read back where its items are. -/
theorem isReadBack_array (blank : spacing.IsBlank) {levels : Nat} {items : List Json}
    (inside : ∀ item ∈ items, IsPlain levels item)
    (back : ∀ item ∈ items, IsReadBack spacing item) : IsReadBack spacing (.array items) := by
  intro level fuel rest enough _
  cases fuel with
  | zero => cases items <;> exact absurd enough (Nat.not_succ_le_zero _)
  | succ fuel =>
      cases items with
      | nil => rfl
      | cons item items =>
          rw [write, List.length_cons, List.append_assoc, List.length_append] at enough
          have inner := readItems_write blank level item items back fuel [] rest (by omega)
          obtain ⟨first, more, head, solid, notEnd⟩ :=
            (inside item List.mem_cons_self).write_eq_cons spacing (level + 1)
          rw [write, readValue, List.cons_append, skipBlanks_cons rfl]
          simp only [List.append_assoc]
          rw [skipBlanks_append (blank.before (level + 1))]
          rw [head, List.cons_append] at inner ⊢
          rw [skipBlanks_cons solid]
          -- The first item does not look like the end of the array.
          split
          · rename_i same
            cases same
            exact absurd rfl notEnd
          · exact inner

/-- An object is read back where the values of its members are. -/
theorem isReadBack_object (blank : spacing.IsBlank) {members : List (Option String × Json)}
    (keyed : ∀ member ∈ members, member.1.isSome = true)
    (back : ∀ member ∈ members, IsReadBack spacing member.2) :
    IsReadBack spacing (.object members) := by
  intro level fuel rest enough _
  cases fuel with
  | zero => cases members <;> exact absurd enough (Nat.not_succ_le_zero _)
  | succ fuel =>
      cases members with
      | nil => rfl
      | cons member members =>
          obtain ⟨name, value⟩ := member
          obtain ⟨key, rfl⟩ := Option.isSome_iff_exists.mp (keyed _ List.mem_cons_self)
          have written : write spacing level (.object ((some key, value) :: members)) =
              '{' :: (spacing.before (level + 1) ++ (memberText spacing level key value ++
                writeMembers spacing level members)) := by
            rw [write, memberText, List.append_assoc]
          rw [written, List.length_cons, List.length_append] at enough
          have inner := readMembers_write blank level key value members
            (fun member within => keyed member (List.mem_cons_of_mem _ within))
            (back _ List.mem_cons_self)
            (fun member within => back member (List.mem_cons_of_mem _ within)) fuel [] rest
            (by omega)
          rw [written, readValue, List.cons_append, skipBlanks_cons rfl]
          simp only [List.append_assoc]
          rw [skipBlanks_append (blank.before (level + 1))]
          exact inner

/-- Every plain value is read back from its text, whichever blanks the spacing puts between the
parts. -/
theorem IsPlain.isReadBack (blank : spacing.IsBlank) {levels : Nat} {value : Json}
    (plain : IsPlain levels value) : IsReadBack spacing value := by
  induction plain with
  | null =>
      intro level fuel rest enough _
      cases fuel with
      | zero => exact absurd enough (Nat.not_succ_le_zero _)
      | succ fuel => rfl
  | flag value =>
      intro level fuel rest enough _
      cases fuel with
      | zero => cases value <;> exact absurd enough (Nat.not_succ_le_zero _)
      | succ fuel => cases value <;> rfl
  | word value _ => exact isReadBack_ofNat value
  | text content => exact isReadBack_ofText content
  | array inside ih => exact isReadBack_array blank inside ih
  | object keyed _ ih => exact isReadBack_object blank keyed ih

/-- The text of a plain value is read as that value. -/
theorem IsPlain.read?_write (blank : spacing.IsBlank) {levels : Nat} {value : Json}
    (plain : IsPlain levels value) :
    read? (String.ofList (value.write spacing 0)) = some value := by
  have back := plain.isReadBack blank 0 (2 * (value.write spacing 0).length + 2) [] (by omega)
    Numeral.endsBefore_nil
  rw [List.append_nil] at back
  unfold read?
  rw [String.toList_ofList]
  dsimp only
  rw [back]
  rfl

theorem areSound_iff (levels : Nat) (items : List Json) :
    areSound levels items = true ↔ ∀ item ∈ items, isSound levels item = true := by
  induction items with
  | nil => simp [areSound]
  | cons item rest ih => rw [areSound, Bool.and_eq_true, ih, List.forall_mem_cons]

theorem membersAreSound_iff (levels : Nat) (members : List (Option String × Json)) :
    membersAreSound levels members = true ↔
      ∀ member ∈ members, member.1.isSome = true ∧ isSound levels member.2 = true := by
  induction members with
  | nil => simp [membersAreSound]
  | cons member rest ih =>
      rw [membersAreSound, Bool.and_eq_true, Bool.and_eq_true, ih, List.forall_mem_cons]

/-- Plain values have a meaning throughout. -/
theorem IsPlain.isSound {levels : Nat} {value : Json} (plain : IsPlain levels value) :
    value.isSound levels = true := by
  induction plain with
  | null => rfl
  | flag value => rfl
  | word value short =>
      have limit : UInt32.size < Nat.pow 2 Double.precision := by decide
      exact Numeral.isFinite_ofNat (Nat.lt_trans short limit)
  | text content => rfl
  | @array levels items inside ih => exact (areSound_iff levels items).mpr ih
  | @object levels members keyed inside ih =>
      exact (membersAreSound_iff levels members).mpr fun member within =>
        ⟨keyed member within, ih member within⟩

/-- The bytes of a text are read as the text is, if it has a meaning throughout. -/
theorem readFile?_bytes (text : String) :
    readFile? (Text.bytes text) = (read? text).filter (isSound deepest) := by
  have decoded : String.fromUTF8? ⟨(Text.bytes text).toArray⟩ = some text := by
    rw [Text.bytes, Array.toArray_toList]
    exact dif_pos text.isValidUTF8
  rw [readFile?, decoded]

/-- A file with the text of a plain value is read as that value. -/
theorem IsPlain.readFile?_write (blank : spacing.IsBlank) {value : Json}
    (plain : IsPlain deepest value) :
    readFile? (Text.bytes (String.ofList (value.write spacing 0))) = some value := by
  rw [readFile?_bytes, plain.read?_write blank, Option.filter_some, if_pos plain.isSound]

end MethodPatch.Json
