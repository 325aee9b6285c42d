import MethodPatch.Json.Double

set_option autoImplicit false

namespace MethodPatch

/-- A number as it is written: a sign, the digits before the point, those after it, and an exponent
with its own sign. -/
structure Numeral where
  negative : Bool
  whole : Nat
  fraction : List Char
  exponent : Option (Bool × Nat)
deriving DecidableEq, Repr

/-- A word times a power of ten. -/
structure ScaledWord where
  word : Nat
  scale : Int
deriving DecidableEq, Repr

/-- Appends digits to a number for as long as it fits in a word. Gives the number and how many
digits are left over. -/
def appendFitting (value : Nat) : List Char → Nat × Nat
  | [] => (value, 0)
  | digit :: rest =>
      let longer := value * 10 + (digit.toNat - '0'.toNat)
      if longer < UInt64.size then appendFitting longer rest else (value, rest.length + 1)

theorem appendFitting_fst_lt (value : Nat) (digits : List Char) (fits : value < UInt64.size) :
    (appendFitting value digits).1 < UInt64.size := by
  fun_induction appendFitting value digits with
  | case1 => exact fits
  | case2 value digit rest longer short shorter => exact shorter short
  | case3 => exact fits

theorem appendFitting_snd_le (value : Nat) (digits : List Char) :
    (appendFitting value digits).2 ≤ digits.length := by
  fun_induction appendFitting value digits with
  | case1 => exact Nat.le_refl 0
  | case2 value digit rest longer short shorter =>
      exact Nat.le_trans shorter (Nat.le_succ rest.length)
  | case3 => exact Nat.le_refl _

namespace ScaledWord

/-- The greatest power of ten that is a double. -/
def greatestScale : Int := 308

/-- Whether the product is a finite double once both factors are rounded to doubles; it may not be
although the exact product lies below the limit. -/
def isFinite (number : ScaledWord) : Bool :=
  number.word == 0 || number.scale < 0 ||
    number.scale ≤ greatestScale &&
      Double.nearest number.word * Double.nearest (Nat.pow 10 number.scale.toNat) < Double.overflow

end ScaledWord

namespace Numeral

def ofNat (value : Nat) : Numeral := ⟨false, value, [], none⟩

/-- The value of a numeral with neither sign nor fraction nor exponent. -/
def natural? (numeral : Numeral) : Option Nat :=
  if !numeral.negative && numeral.fraction.isEmpty && numeral.exponent.isNone then
    some numeral.whole
  else none

@[simp] theorem natural?_ofNat (value : Nat) : (ofNat value).natural? = some value := rfl

/-- The exponent as it is written. -/
def power (numeral : Numeral) : Int :=
  match numeral.exponent with
  | none => 0
  | some (false, power) => power
  | some (true, power) => -power

/-- The numeral without its sign. A digit before the point that is left over raises the scale, and
one after the point that is taken lowers it. -/
def scaled (numeral : Numeral) : ScaledWord :=
  let (leading, skipped) := appendFitting 0 (Nat.toDigits 10 numeral.whole)
  let (word, left) := appendFitting leading numeral.fraction
  ⟨word, numeral.power + skipped - (numeral.fraction.length - left : Nat)⟩

/-- Whether the numeral reads as a finite double. -/
def isFinite (numeral : Numeral) : Bool := numeral.scaled.isFinite

end Numeral

end MethodPatch
