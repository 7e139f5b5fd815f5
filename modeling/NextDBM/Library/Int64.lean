import Mathlib.Algebra.Group.Int.Defs
import Mathlib.Algebra.Group.Nat.Defs
import Mathlib.Data.Int.Basic

/-!
# Wrapping arithmetic on 64-bit integers

An operation on 64-bit integers is the operation on integers followed by `wrap`, so a chain of
products is wrapped once, at its end.
-/

namespace Int64Arith

/-- The integer of the signed 64-bit range that agrees with `x` modulo `2 ^ 64`. -/
def wrap (x : Int) : Int := Int.bmod x (2 ^ 64)

variable {x : Int}

theorem wrap_of_fits (hlo : -2 ^ 63 ≤ x) (hhi : x < 2 ^ 63) : wrap x = x :=
  Int.bmod_eq_of_le_mul_two (by omega) (by omega)

theorem le_wrap (x : Int) : -2 ^ 63 ≤ wrap x := by
  have := @Int.le_bmod x (2 ^ 64) (by decide)
  unfold wrap
  omega

/-- A product of a wrapped factor is wrapped once. -/
theorem wrap_wrap_mul (x y : Int) : wrap (wrap x * y) = wrap (x * y) := Int.bmod_mul_bmod

/-- A negative number is wrapped to a greater one exactly when it is below the range. -/
theorem wrap_le_iff (hneg : x ≤ 0) : wrap x ≤ x ↔ -2 ^ 63 ≤ x := by
  constructor
  · intro h
    have hrange := le_wrap x
    omega
  · intro h
    have heq := wrap_of_fits h (by omega)
    omega

end Int64Arith
