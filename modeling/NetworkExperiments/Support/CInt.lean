import Mathlib.Algebra.Divisibility.Basic
import Mathlib.Algebra.Ring.Int.Defs
import Mathlib.Algebra.Ring.Nat

/-!
# C integer arithmetic

The arithmetic of the modelled programs is that of the C types `int` (32 bits,
two's complement) and `size_t`.  The conversions below are written where the
source computes or converts a value of the type; the lemmas say when they
change nothing.
-/

namespace CInt

/-- The value of an expression of type `int`. -/
def toInt (x : ℤ) : ℤ := Int.bmod x (2 ^ 32)

theorem toInt_eq_self {x : ℤ} (hlo : -2 ^ 31 ≤ x) (hhi : x < 2 ^ 31) :
    toInt x = x :=
  Int.bmod_eq_of_le (by omega) (by omega)

theorem toInt_eq_sub {x : ℤ} (hlo : 2 ^ 31 ≤ x) (hhi : x < 2 ^ 31 + 2 ^ 32) :
    toInt x = x - 2 ^ 32 := by
  have hwrap : Int.bmod (x - 2 ^ 32) (2 ^ 32) = Int.bmod x (2 ^ 32) :=
    Int.sub_bmod_right x (2 ^ 32)
  rw [toInt, ← hwrap]
  exact Int.bmod_eq_of_le (by omega) (by omega)

/-- The conversions of the summands do not matter to the sum. -/
theorem toInt_add_toInt (x y : ℤ) :
    toInt (toInt x + toInt y) = toInt (x + y) := by
  rw [toInt, toInt, toInt, Int.bmod_add_bmod, Int.add_bmod_bmod, toInt]

theorem toInt_natCast {n : ℕ} (h : n < 2 ^ 31) : toInt n = n :=
  toInt_eq_self (by omega) (by omega)

/-- The value of an expression of type `size_t` on a machine whose `size_t`
has `bits` bits. -/
def toSize (bits : ℕ) (x : ℤ) : ℕ := (x % 2 ^ bits).toNat

theorem toSize_natCast {bits n : ℕ} (h : n < 2 ^ bits) :
    toSize bits n = n := by
  rw [toSize, Int.emod_eq_of_lt (by omega) (by exact_mod_cast h)]
  simp

theorem toSize_lt (bits : ℕ) (x : ℤ) : toSize bits x < 2 ^ bits := by
  have hpos : (0 : ℤ) < 2 ^ bits := Int.pow_pos (by decide)
  have hlt : x % 2 ^ bits < 2 ^ bits := Int.emod_lt_of_pos x hpos
  have hcast : ((2 ^ bits : ℕ) : ℤ) = 2 ^ bits := Int.natCast_pow 2 bits
  rw [toSize]
  omega

theorem dvd_toSize {bits s : ℕ} (hs : s ≤ bits) {x : ℤ}
    (hx : (2 ^ s : ℤ) ∣ x) : 2 ^ s ∣ toSize bits x := by
  have hpos : (0 : ℤ) < 2 ^ bits := Int.pow_pos (by decide)
  have hmod : (2 ^ s : ℤ) ∣ x % 2 ^ bits := by
    rw [Int.emod_def]
    exact Int.dvd_sub hx ((pow_dvd_pow 2 hs).mul_right _)
  rw [toSize, ← Int.natCast_dvd_natCast, Int.natCast_pow,
    Int.toNat_of_nonneg (Int.emod_nonneg x (Int.ne_of_gt hpos))]
  exact hmod

/-- A negative number is counted from the top. -/
theorem toSize_neg {bits n : ℕ} (hpos : 0 < n) (hle : n ≤ 2 ^ bits) :
    toSize bits (-n) = 2 ^ bits - n := by
  have hcast : ((2 ^ bits : ℕ) : ℤ) = 2 ^ bits := Int.natCast_pow 2 bits
  have hmod : (-n : ℤ) % 2 ^ bits = 2 ^ bits - n := by
    rw [← Int.add_emod_right, Int.emod_eq_of_lt] <;> omega
  rw [toSize, hmod]
  omega

/-- A sum that is computed with 32 bits first has the same value as an `int`. -/
theorem toInt_toSize_add (x y : ℤ) :
    toInt ((toSize 32 x : ℕ) + y) = toInt (x + y) := by
  have hcast : ((toSize 32 x : ℕ) : ℤ) = x % (2 ^ 32 : ℕ) := by
    rw [toSize]
    omega
  rw [hcast, toInt, toInt, Int.emod_add_bmod]

/-- The value of an expression of type `long` on a machine whose `long` has
`bits` bits. -/
def toLong (bits : ℕ) (x : ℤ) : ℤ := Int.bmod x (2 ^ bits)

theorem toSize_toLong (bits : ℕ) (x : ℤ) :
    toSize bits (toLong bits x) = toSize bits x := by
  have hcast : ((2 ^ bits : ℕ) : ℤ) = 2 ^ bits := Int.natCast_pow 2 bits
  rw [toSize, toSize, toLong, ← hcast, Int.bmod_emod]

/-- A mask of the upper bits rounds down to a multiple of `2 ^ s`. -/
theorem and_mask {bits s x : ℕ} (hs : s ≤ bits) (hx : x < 2 ^ bits) :
    x &&& (2 ^ bits - 2 ^ s) = 2 ^ s * (x / 2 ^ s) := by
  have hmask : 2 ^ bits - 2 ^ s = 2 ^ s * (2 ^ (bits - s) - 1) := by
    rw [Nat.mul_sub, ← Nat.pow_add, Nat.add_sub_cancel' hs, Nat.mul_one]
  apply Nat.eq_of_testBit_eq
  intro i
  rw [Nat.testBit_and, hmask, Nat.testBit_two_pow_mul,
    Nat.testBit_two_pow_sub_one, Nat.testBit_two_pow_mul,
    Nat.testBit_div_two_pow]
  by_cases hi : s ≤ i
  · have hshift : i - s + s = i := Nat.sub_add_cancel hi
    by_cases htop : i < bits
    · have hlt : i - s < bits - s := by omega
      simp [hi, hlt, hshift]
    · have hhigh : x.testBit i = false :=
        Nat.testBit_lt_two_pow (lt_of_lt_of_le hx
          (Nat.pow_le_pow_right (by decide) (Nat.not_lt.mp htop)))
      simp [hshift, hhigh]
  · simp [hi]

end CInt
