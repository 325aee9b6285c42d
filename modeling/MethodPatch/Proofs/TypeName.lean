import MethodPatch.TypeName

set_option autoImplicit false

namespace MethodPatch.TypeName

/-- A slash in place of either separator. -/
def internalByte (byte : UInt8) : UInt8 :=
  if isSeparator byte then '/'.toUInt8 else byte

/-- The bytes of a name with a slash for every separator. -/
def internalBytes (name : String) : List UInt8 :=
  (Text.bytes name).map internalByte

theorem isSeparator_internalByte (byte : UInt8) :
    isSeparator (internalByte byte) = isSeparator byte := by
  by_cases separator : isSeparator byte
  · rw [internalByte, if_pos separator, separator]
    rfl
  · rw [internalByte, if_neg separator]

theorem sameByte_iff (left right : UInt8) :
    sameByte left right = true ↔ internalByte left = internalByte right := by
  simp only [sameByte, Bool.or_eq_true, beq_iff_eq, Bool.and_eq_true]
  constructor
  · rintro (rfl | ⟨leftSeparator, rightSeparator⟩)
    · rfl
    · rw [internalByte, internalByte, if_pos leftSeparator, if_pos rightSeparator]
  · intro equal
    have separators : isSeparator left = isSeparator right := by
      rw [← isSeparator_internalByte left, equal, isSeparator_internalByte]
    by_cases separator : isSeparator left
    · exact Or.inr ⟨separator, separators ▸ separator⟩
    · have other : ¬ isSeparator right = true := separators ▸ separator
      simp only [internalByte, separator, other] at equal
      exact Or.inl equal

theorem same_iff (left right : String) :
    same left right = true ↔ internalBytes left = internalBytes right := by
  simp only [same, internalBytes]
  generalize Text.bytes left = one
  generalize Text.bytes right = other
  induction one generalizing other with
  | nil => cases other <;> simp
  | cons byte rest ih =>
      cases other with
      | nil => simp
      | cons next others =>
          have tails := ih others
          simp only [Bool.and_eq_true, beq_iff_eq] at tails
          simp only [List.length_cons, List.zip_cons_cons, List.all_cons, Bool.and_eq_true,
            beq_iff_eq, Nat.add_right_cancel_iff, List.map_cons, List.cons.injEq,
            ← sameByte_iff, ← tails]
          exact and_left_comm

@[simp] theorem same_refl (name : String) : same name name = true :=
  (same_iff name name).mpr rfl

theorem same_comm (left right : String) : same left right = same right left := by
  rw [Bool.eq_iff_iff, same_iff, same_iff]
  exact eq_comm

theorem same_trans {first second third : String} (left : same first second = true)
    (right : same second third = true) : same first third = true :=
  (same_iff first third).mpr
    (((same_iff first second).mp left).trans ((same_iff second third).mp right))

/-- Two spellings of one type are told apart by no third name. -/
theorem same_congr_left {first second : String} (spelled : same first second = true)
    (name : String) : same first name = same second name := by
  rw [Bool.eq_iff_iff, same_iff, same_iff, (same_iff first second).mp spelled]

theorem same_congr_right {first second : String} (spelled : same first second = true)
    (name : String) : same name first = same name second := by
  rw [same_comm name first, same_comm name second, same_congr_left spelled]

/-- No byte but that of a dot changes in the internal form. -/
theorem internalByte_of_ne (value : Nat) (different : value ≠ '.'.toNat) (small : value < 256) :
    internalByte (UInt8.ofNat value) = UInt8.ofNat value := by
  have number : (UInt8.ofNat value).toNat = value := UInt8.toNat_ofNat_of_lt' small
  have noDot : (UInt8.ofNat value == '.'.toUInt8) = false := by
    rw [beq_eq_false_iff_ne]
    intro same
    exact different (number ▸ congrArg UInt8.toNat same)
  rw [internalByte, isSeparator, noDot, Bool.false_or]
  split
  · rename_i slash
    exact (beq_iff_eq.mp slash).symm
  · rfl

/-- A separator is one byte and part of no other letter. -/
theorem map_internalByte_utf8EncodeChar (letter : Char) :
    (String.utf8EncodeChar letter).map internalByte =
      String.utf8EncodeChar (if letter = '.' then '/' else letter) := by
  by_cases dot : letter = '.'
  · subst dot
    decide
  · have different : letter.val.toNat ≠ '.'.toNat := fun same => dot (Char.toNat_inj.mp same)
    have dotNumber : '.'.toNat = 46 := rfl
    rw [if_neg dot]
    unfold String.utf8EncodeChar
    dsimp only
    split
    · rw [List.map_singleton, internalByte_of_ne _ different (by omega)]
    · split
      · simp only [List.map_cons, List.map_nil]
        rw [internalByte_of_ne _ (by omega) (by omega), internalByte_of_ne _ (by omega) (by omega)]
      · split
        · simp only [List.map_cons, List.map_nil]
          rw [internalByte_of_ne _ (by omega) (by omega),
            internalByte_of_ne _ (by omega) (by omega), internalByte_of_ne _ (by omega) (by omega)]
        · simp only [List.map_cons, List.map_nil]
          rw [internalByte_of_ne _ (by omega) (by omega),
            internalByte_of_ne _ (by omega) (by omega),
            internalByte_of_ne _ (by omega) (by omega), internalByte_of_ne _ (by omega) (by omega)]

/-- The internal form, letter by letter or byte by byte. -/
theorem bytes_internal (name : String) : Text.bytes (internal name) = internalBytes name := by
  have letters := Text.bytes_ofList name.toList
  rw [String.ofList_toList] at letters
  rw [internal, Text.bytes_ofList, internalBytes, letters, List.flatMap_map, List.map_flatMap]
  simp only [map_internalByte_utf8EncodeChar]

@[simp] theorem internalBytes_internal (name : String) :
    internalBytes (internal name) = internalBytes name := by
  rw [internalBytes, bytes_internal, internalBytes, List.map_map]
  apply List.map_congr_left
  intro byte _
  rw [Function.comp_apply]
  unfold internalByte
  split
  · rfl
  · rfl

/-- A name and its internal form are spellings of the same types. -/
@[simp] theorem same_internal_left (left right : String) :
    same (internal left) right = same left right := by
  rw [Bool.eq_iff_iff, same_iff, same_iff, internalBytes_internal]

@[simp] theorem same_internal_right (left right : String) :
    same left (internal right) = same left right := by
  rw [Bool.eq_iff_iff, same_iff, same_iff, internalBytes_internal]

/-- Two names are spellings of one type exactly when they have one internal form. -/
theorem internal_eq_iff (left right : String) :
    internal left = internal right ↔ same left right = true := by
  rw [same_iff, ← Text.bytes_inj, bytes_internal, bytes_internal]

end MethodPatch.TypeName
