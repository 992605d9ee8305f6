import Mathlib.Data.Nat.Log
import Mathlib.Tactic.Ring

/-!
# Rounding to a number of digits

A number `c * b ^ e` is kept to `precision` digits by dropping the last digits of its coefficient,
half to even. Nothing is lost exactly when the digits dropped are zeros (`roundDigits_exact`); a
number that is a multiple `u * b ^ m` of a unit is kept as long as `u` is at most `b ^ precision`,
and loses the unit itself beyond (`raise_of_scaled`).
-/

namespace AtlasDb.Lib

variable {b precision : Nat}

/-- `n / d` to the nearest number, ties to the even one. -/
def halfEven (n d : Nat) : Nat :=
  if 2 * (n % d) < d then n / d
  else if d < 2 * (n % d) then n / d + 1
  else n / d + n / d % 2

theorem halfEven_of_dvd {n d : Nat} (hd : 0 < d) (h : d ∣ n) : halfEven n d = n / d := by
  have hmod : n % d = 0 := Nat.mod_eq_zero_of_dvd h
  rw [halfEven, hmod, if_pos (by omega)]

/-- The number of digits. -/
def digitCount (b n : Nat) : Nat := Nat.log b n + 1

/-- The coefficient kept, and the number of digits by which the exponent rises. -/
def roundDigits (b precision c : Nat) : Nat × Nat :=
  let extra := digitCount b c - precision
  if extra = 0 then (c, 0)
  else if halfEven c (b ^ extra) = b ^ precision then (b ^ (precision - 1), extra + 1)
  else (halfEven c (b ^ extra), extra)

/-- Dropping zeros loses nothing. -/
theorem roundDigits_exact (hb : 1 < b) (hprecision : 0 < precision) {c : Nat}
    (h : b ^ (digitCount b c - precision) ∣ c) :
    (roundDigits b precision c).1 * b ^ (roundDigits b precision c).2 = c := by
  have hpos : 0 < b ^ (digitCount b c - precision) := Nat.pow_pos (by omega)
  unfold roundDigits
  simp only
  split
  · exact Nat.mul_one c
  · rw [halfEven_of_dvd hpos h]
    split
    · next hcarry =>
        -- the carry moves one digit into the exponent
        have hsplit : b ^ precision = b ^ (precision - 1) * b := by
          rw [← Nat.pow_succ]
          congr 1
          omega
        show b ^ (precision - 1) * b ^ (digitCount b c - precision + 1) = c
        rw [Nat.pow_succ, Nat.mul_comm (b ^ (digitCount b c - precision)),
          ← Nat.mul_assoc, ← hsplit,
          ← hcarry, Nat.div_mul_cancel h]
    · exact Nat.div_mul_cancel h

/-- The digits dropped from a small multiple of a unit are zeros. -/
theorem dvd_of_scaled (hb : 1 < b) (hprecision : 0 < precision) {u m : Nat}
    (hu : u ≤ b ^ precision) :
    b ^ (digitCount b (u * b ^ m) - precision) ∣ u * b ^ m := by
  rcases Nat.lt_or_eq_of_le hu with hlt | rfl
  · -- fewer than `precision + m` digits
    have hdigits : digitCount b (u * b ^ m) ≤ precision + m := by
      rw [digitCount]
      have hbound : u * b ^ m < b ^ (precision + m) := by
        rw [Nat.pow_add]
        exact Nat.mul_lt_mul_of_pos_right hlt (Nat.pow_pos (by omega))
      exact Nat.log_lt_of_lt_pow' (by omega) hbound
    exact Nat.dvd_mul_left_of_dvd (Nat.pow_dvd_pow b (by omega)) u
  · rw [← Nat.pow_add, digitCount, Nat.log_pow hb]
    exact Nat.pow_dvd_pow b (by omega)

/-- A large multiple of a unit is rounded to multiples of a larger unit. -/
theorem raise_of_scaled (hb : 1 < b) {u m : Nat} (hu : b ^ precision < u) :
    m + 1 ≤ (roundDigits b precision (u * b ^ m)).2 := by
  have hdigits : precision + m + 1 ≤ digitCount b (u * b ^ m) := by
    rw [digitCount]
    have hbound : b ^ (precision + m) ≤ u * b ^ m := by
      rw [Nat.pow_add]
      exact Nat.mul_le_mul_right _ hu.le
    have := Nat.le_log_of_pow_le hb hbound
    omega
  unfold roundDigits
  simp only
  rw [if_neg (by omega)]
  split
  · show m + 1 ≤ _ + 1
    omega
  · show m + 1 ≤ digitCount b (u * b ^ m) - precision
    omega

end AtlasDb.Lib
