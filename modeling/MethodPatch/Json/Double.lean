set_option autoImplicit false

namespace MethodPatch

/-- The nearest multiple of a unit; from halfway between two, the even one. -/
def roundToMultiple (unit value : Nat) : Nat :=
  let multiple := value / unit
  let rest := value % unit
  if 2 * rest < unit ∨ 2 * rest = unit ∧ multiple % 2 = 0 then multiple * unit
  else (multiple + 1) * unit

/-- Rounding moves a number by half a unit at most. -/
theorem roundToMultiple_near (unit value : Nat) (positive : 0 < unit) :
    2 * roundToMultiple unit value ≤ 2 * value + unit ∧
      2 * value ≤ 2 * roundToMultiple unit value + unit := by
  have parts : value / unit * unit + value % unit = value := Nat.div_add_mod' value unit
  have bound : value % unit < unit := Nat.mod_lt value positive
  unfold roundToMultiple
  dsimp only
  split
  · omega
  · rw [Nat.add_mul, Nat.one_mul]
    omega

/-- A number halfway between two multiples goes to the even one. -/
theorem roundToMultiple_halfway (half multiple : Nat) (positive : 0 < half) :
    roundToMultiple (2 * half) (multiple * (2 * half) + half) =
      (multiple + multiple % 2) * (2 * half) := by
  have quotient : (multiple * (2 * half) + half) / (2 * half) = multiple := by
    rw [Nat.mul_comm, Nat.mul_add_div (by omega), Nat.div_eq_of_lt (by omega), Nat.add_zero]
  have rest : (multiple * (2 * half) + half) % (2 * half) = half := by
    rw [Nat.mul_comm, Nat.mul_add_mod, Nat.mod_eq_of_lt (by omega)]
  unfold roundToMultiple
  dsimp only
  rw [quotient, rest]
  have parity : multiple % 2 = 0 ∨ multiple % 2 = 1 := by omega
  cases parity with
  | inl even => simp [even]
  | inr odd => simp [odd]

@[simp] theorem roundToMultiple_one (value : Nat) : roundToMultiple 1 value = value := by
  simp [roundToMultiple, Nat.mod_one]

namespace Double

/-- The number of binary digits that a double keeps. -/
def precision : Nat := 53

/-- Magnitudes from here on are nearer to infinity than to the greatest double. -/
def overflow : Nat := Nat.pow 2 1024 - Nat.pow 2 970

/-- The nearest number of as many binary digits as a double keeps. -/
def nearest (value : Nat) : Nat :=
  roundToMultiple (Nat.pow 2 (value.log2 + 1 - precision)) value

theorem nearest_of_lt (value : Nat) (short : value < Nat.pow 2 precision) :
    nearest value = value := by
  have digits : value.log2 + 1 - precision = 0 := by
    by_cases zero : value = 0
    · subst zero
      decide
    · have := (Nat.log2_lt zero).mpr short
      omega
  unfold nearest
  rw [digits]
  exact roundToMultiple_one value

end Double

end MethodPatch
