/-!
# Natural numbers as doubles

A double keeps 53 binary digits. A natural number is rounded to the nearest double, and of two
that are equally near to the one whose last kept digit is zero.
-/

namespace PayrollSeal.Double

/-- The first number that rounds to infinity: halfway from the largest double to the next one that
53 digits would write. -/
def overflow : Nat := 1 <<< 1024 - 1 <<< 970

/-- The distance between doubles around a number. -/
def spacing (n : Nat) : Nat := 1 <<< (n.log2 - 52)

/-- The nearest number of whole steps; of two equally near ones, the even one. -/
def steps (n step : Nat) : Nat :=
  let rest := 2 * (n % step)
  if rest < step ∨ (rest = step ∧ n / step % 2 = 0) then n / step else n / step + 1

/-- The double nearest to a number that is less than `overflow`. -/
def nearest (n : Nat) : Nat := steps n (spacing n) * spacing n

/-- Rounding moves a number by at most half a step. -/
theorem two_mul_steps_bounds {n step : Nat} (h : 0 < step) :
    2 * n ≤ 2 * (steps n step * step) + step ∧ 2 * (steps n step * step) ≤ 2 * n + step := by
  have hn := Nat.div_add_mod' n step
  have hr := Nat.mod_lt n h
  simp only [steps]
  split
  · omega
  · rw [Nat.succ_mul (n / step) step]
    omega

theorem spacing_pos (n : Nat) : 0 < spacing n := by
  rw [spacing, Nat.one_shiftLeft]
  exact Nat.two_pow_pos _

/-- The nearest double is at most half the spacing away. -/
theorem two_mul_nearest_bounds (n : Nat) :
    2 * n ≤ 2 * nearest n + spacing n ∧ 2 * nearest n ≤ 2 * n + spacing n :=
  two_mul_steps_bounds (spacing_pos n)

end PayrollSeal.Double
