import MethodPatch.Json.Reader
import MethodPatch.Json.Writer

set_option autoImplicit false

namespace MethodPatch

/-- Digits whose number fits in a word are all taken. -/
theorem appendFitting_of_fits (digits : List Char) (value : Nat)
    (fits : Nat.ofDigitChars 10 digits value < UInt64.size) :
    appendFitting value digits = (Nat.ofDigitChars 10 digits value, 0) := by
  induction digits generalizing value with
  | nil => rfl
  | cons digit rest ih =>
      rw [Nat.ofDigitChars_cons, Nat.mul_comm] at fits ⊢
      have grows : Nat.ofDigitChars 10 rest (value * 10 + (digit.toNat - '0'.toNat)) =
          10 ^ rest.length * (value * 10 + (digit.toNat - '0'.toNat)) +
            Nat.ofDigitChars 10 rest 0 := Nat.ofDigitChars_eq_ofDigitChars_zero
      have longer : value * 10 + (digit.toNat - '0'.toNat) < UInt64.size := by
        have scale : 0 < 10 ^ rest.length := Nat.pow_pos (by omega)
        have least := Nat.le_mul_of_pos_left (value * 10 + (digit.toNat - '0'.toNat)) scale
        omega
      unfold appendFitting
      dsimp only
      rw [if_pos longer]
      exact ih _ fits

namespace Numeral

/-- The text cannot go on with part of a number. -/
def EndsBefore (rest : List Char) : Prop :=
  ∀ letter ∈ rest.head?, letter.isDigit = false ∧ letter ≠ '.' ∧ letter ≠ 'e' ∧ letter ≠ 'E'

theorem endsBefore_nil : EndsBefore [] := by
  intro letter member
  cases member

theorem endsBefore_cons {letter : Char} (rest : List Char)
    (ends : letter.isDigit = false ∧ letter ≠ '.' ∧ letter ≠ 'e' ∧ letter ≠ 'E') :
    EndsBefore (letter :: rest) := by
  intro first member
  cases member
  exact ends

/-- The digits of a number are digits, and no zero stands in front of others. -/
theorem toDigits_eq_cons (value : Nat) :
    ∃ first rest, Nat.toDigits 10 value = first :: rest ∧ first.isDigit = true ∧
      (value ≠ 0 → first ≠ '0') := by
  induction value using Nat.strongRecOn with
  | ind value ih =>
      by_cases short : value < 10
      · refine ⟨value.digitChar, [], Nat.toDigits_of_lt_base short, ?_, ?_⟩
        · rw [Nat.isDigit_digitChar, decide_eq_true short]
        · intro positive zero
          exact positive (Nat.digitChar_eq_zero.mp zero)
      · obtain ⟨first, rest, digits, isDigit, notZero⟩ := ih (value / 10) (by omega)
        refine ⟨first, rest ++ [(value % 10).digitChar], ?_, isDigit, fun _ => ?_⟩
        · rw [Nat.toDigits_of_base_le (by omega) (by omega), digits, List.cons_append]
        · exact notZero (by omega)

theorem isWhole_toDigits (value : Nat) : isWhole (Nat.toDigits 10 value) = true := by
  by_cases zero : value = 0
  · rw [zero, Nat.toDigits_zero]
    rfl
  · obtain ⟨first, rest, digits, _, notZero⟩ := toDigits_eq_cons value
    rw [digits]
    unfold isWhole
    split
    · contradiction
    · rfl
    · rename_i head _ _ same
      cases same
      exact bne_iff_ne.mpr (notZero zero)

theorem takeWhile_isDigit {digits rest : List Char} (all : ∀ digit ∈ digits, digit.isDigit = true)
    (ends : EndsBefore rest) :
    (digits ++ rest).takeWhile Char.isDigit = digits ∧
      (digits ++ rest).dropWhile Char.isDigit = rest := by
  rw [List.takeWhile_append_of_pos all, List.dropWhile_append_of_pos all]
  cases rest with
  | nil => exact ⟨List.append_nil digits, rfl⟩
  | cons letter more =>
      have stop : ¬ letter.isDigit = true := by
        rw [(ends letter rfl).1]
        exact Bool.false_ne_true
      rw [List.takeWhile_cons_of_neg stop, List.dropWhile_cons_of_neg stop, List.append_nil]
      exact ⟨rfl, rfl⟩

theorem readFraction_of_ends {rest : List Char} (ends : EndsBefore rest) :
    readFraction rest = some ([], rest) := by
  unfold readFraction
  split
  · exact absurd rfl (ends '.' rfl).2.1
  · rfl

theorem readExponent_of_ends {rest : List Char} (ends : EndsBefore rest) :
    readExponent rest = some (none, rest) := by
  cases rest with
  | nil => rfl
  | cons letter more =>
      obtain ⟨_, _, small, great⟩ := ends letter rfl
      unfold readExponent
      simp only [Bool.or_eq_true, beq_iff_eq, small, great, or_self, if_false]

theorem write_ofNat (value : Nat) : (ofNat value).write = Nat.toDigits 10 value := by
  simp only [write, ofNat, Bool.false_eq_true, if_false, List.isEmpty_nil, if_true,
    List.nil_append, List.append_nil]

/-- A whole number is read back, and the text after it is left. -/
theorem read_write_ofNat (value : Nat) {rest : List Char} (ends : EndsBefore rest) :
    read ((ofNat value).write ++ rest) = some (ofNat value, rest) := by
  have all : ∀ digit ∈ Nat.toDigits 10 value, digit.isDigit = true :=
    fun _ member => Nat.isDigit_of_mem_toDigits (by omega) (by omega) member
  obtain ⟨taken, left⟩ := takeWhile_isDigit all ends
  have unsigned : readUnsigned false (Nat.toDigits 10 value ++ rest) =
      some (ofNat value, rest) := by
    unfold readUnsigned
    dsimp only
    rw [taken, left, if_pos (isWhole_toDigits value), readFraction_of_ends ends]
    dsimp only
    rw [readExponent_of_ends ends, Nat.ofDigitChars_ten_toDigits]
    rfl
  obtain ⟨first, more, digits, isDigit, _⟩ := toDigits_eq_cons value
  rw [write_ofNat]
  rw [digits] at unsigned ⊢
  unfold read
  split
  · rename_i minus
    cases minus
    exact absurd isDigit (by decide)
  · exact unsigned

/-- A whole number below the limit of a double's precision is finite. -/
theorem isFinite_ofNat {value : Nat} (short : value < Nat.pow 2 Double.precision) :
    (ofNat value).isFinite = true := by
  have limit : Nat.pow 2 Double.precision < UInt64.size := by decide
  have digits : appendFitting 0 (Nat.toDigits 10 value) = (value, 0) := by
    have fits : Nat.ofDigitChars 10 (Nat.toDigits 10 value) 0 < UInt64.size := by
      rw [Nat.ofDigitChars_ten_toDigits]
      omega
    rw [appendFitting_of_fits _ 0 fits, Nat.ofDigitChars_ten_toDigits]
  have scaled : (ofNat value).scaled = ⟨value, 0⟩ := by
    simp [Numeral.scaled, ofNat, digits, appendFitting, power]
  have one : Double.nearest (Nat.pow 10 (0 : Int).toNat) = 1 := Double.nearest_of_lt 1 (by decide)
  have bound : Nat.pow 2 Double.precision < Double.overflow := by decide +kernel
  have below : Double.nearest value * 1 < Double.overflow := by
    rw [Double.nearest_of_lt value short]
    omega
  rw [isFinite, scaled, ScaledWord.isFinite, one]
  simp only [Bool.or_eq_true, Bool.and_eq_true, decide_eq_true_eq]
  exact Or.inr ⟨by decide, below⟩

end Numeral

namespace Literal

/-- Hexadecimal digits are read as they are written. -/
theorem digitValue_hexDigit : ∀ value < 16, digitValue (hexDigit value) = some value := by
  decide

/-- A letter is read back from its escape, and the text after it is left. -/
theorem readUnits_escape (letter : Char) (units : List Nat) (rest : List Char) :
    readUnits .plain units (escape letter ++ rest) =
      readUnits .plain (letter.toNat :: units) rest := by
  unfold escape
  split
  iterate 7 rfl
  · rename_i notQuote notBackslash _ _ _ _ _
    by_cases control : letter.toNat < 0x20
    · have high := digitValue_hexDigit (letter.toNat / 16) (by omega)
      have low := digitValue_hexDigit (letter.toNat % 16) (by omega)
      have number : (0 * 16 + letter.toNat / 16) * 16 + letter.toNat % 16 = letter.toNat := by
        omega
      rw [if_pos control]
      -- The two zeros in front of the digits leave two digits to be read.
      show readUnits (.digits 1 0) units
        (hexDigit (letter.toNat / 16) :: hexDigit (letter.toNat % 16) :: rest) = _
      simp only [readUnits, high, low, number]
    · rw [if_neg control, List.singleton_append, readUnits]
      simp only [if_neg (fun same => notQuote same), if_neg (fun same => notBackslash same),
        if_neg control]

theorem readUnits_escapes (letters : List Char) (units : List Nat) (rest : List Char) :
    readUnits .plain units (letters.flatMap escape ++ '"' :: rest) =
      some (units.reverse ++ letters.map Char.toNat, rest) := by
  induction letters generalizing units with
  | nil =>
      rw [List.map_nil, List.append_nil]
      rfl
  | cons letter more ih =>
      rw [List.flatMap_cons, List.append_assoc, readUnits_escape, ih, List.reverse_cons,
        List.append_assoc]
      rfl

/-- No character is half of a surrogate pair, so characters are joined to themselves. -/
theorem joinUnits_toNat (letters before : List Char) :
    joinUnits none before (letters.map Char.toNat) = some (before.reverse ++ letters) := by
  induction letters generalizing before with
  | nil =>
      rw [List.append_nil]
      rfl
  | cons letter more ih =>
      have valid : letter.toNat < 0xd800 ∨ 0xdfff < letter.toNat ∧ letter.toNat < 0x110000 :=
        letter.valid
      have notHigh : isHighSurrogate letter.toNat = false := by
        unfold isHighSurrogate
        rw [Bool.and_eq_false_iff, decide_eq_false_iff_not, decide_eq_false_iff_not]
        omega
      have notLow : isLowSurrogate letter.toNat = false := by
        unfold isLowSurrogate
        rw [Bool.and_eq_false_iff, decide_eq_false_iff_not, decide_eq_false_iff_not]
        omega
      rw [List.map_cons, joinUnits]
      simp only [notHigh, notLow, Bool.false_eq_true, if_false, Char.ofNat_toNat, ih,
        List.reverse_cons, List.append_assoc, List.singleton_append]

/-- A literal is read back behind its opening quote, and the text after it is left. -/
theorem read_write (content : String) (rest : List Char) :
    read (content.toList.flatMap escape ++ '"' :: rest) = some (some content, rest) := by
  unfold read
  rw [readUnits_escapes]
  dsimp only
  rw [List.reverse_nil, List.nil_append, joinUnits_toNat, List.reverse_nil, List.nil_append,
    Option.map_some, String.ofList_toList]

end Literal

end MethodPatch
