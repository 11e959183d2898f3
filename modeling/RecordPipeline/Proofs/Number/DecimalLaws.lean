import Mathlib.Data.Rat.Cast.Order
import Mathlib.Data.Sign.Basic
import Mathlib.Tactic.Linarith
import Mathlib.Tactic.Positivity
import RecordPipeline.Number.DecimalLibrary
import RecordPipeline.Proofs.Number.Signs

/-!
What a library of decimals says of its numbers. They have 28 places at most, so a number that has more
is rounded, and one that is too small becomes zero; what has no room gives nothing, and what has room
gives something. Remainders are those of truncated division.
-/

namespace RecordPipeline

open Binary64 (steps isFinite stepsPerOne)

def Binary64.exact (x : Float) : ℚ :=
  steps x / stepsPerOne

namespace DecimalLibrary

def unit : ℚ := 1 / 10 ^ 28

def greatest : ℚ := 2 ^ 96 - 1

/-- A number on its way to 28 places. It keeps its sign unless nothing is left of it; a unit in the last
place is enough for something to be left, less than half of one is not. -/
structure Rounded (exact rounded : ℚ) : Prop where
  sign : rounded = 0 ∨ SignType.sign rounded = SignType.sign exact
  filled : unit ≤ |exact| → rounded ≠ 0
  empty : 2 * |exact| < unit → rounded = 0

/-- `value` tells the numbers of the library. -/
structure Laws (decimals : DecimalLibrary) (value : decimals.Number → ℚ) : Prop where
  places : ∀ d, ∃ m : ℤ, value d = m * unit
  ofInteger? : ∀ n : Int64, ∃ d, decimals.ofInteger? n = some d ∧ value d = n.toInt
  ofFloat?_rounded : ∀ x d, isFinite x = true → decimals.ofFloat? x = some d →
    Rounded (Binary64.exact x) (value d)
  ofFloat?_isSome : ∀ x, isFinite x = true → |Binary64.exact x| ≤ greatest →
    (decimals.ofFloat? x).isSome
  mul_rounded : ∀ a b d, decimals.mul a b = some d → Rounded (value a * value b) (value d)
  mul_isSome : ∀ a b, |value a * value b| ≤ greatest → (decimals.mul a b).isSome
  rem : ∀ a b d, decimals.rem a b = some d →
    ∃ q : ℤ, value a = q * value b + value d ∧ |value d| < |value b| ∧ |q * value b| ≤ |value a|
  isInteger : ∀ d, decimals.isInteger d = true ↔ ∃ n : ℤ, value d = n
  toInteger? : ∀ d n, value d = (n : ℤ) → ∀ m : Int64, decimals.toInteger? d = some m ↔ m.toInt = n
  toFloat? : ∀ d x, value d ≠ 0 → decimals.toFloat? d = some x →
    Binary64.isNaN x = false ∧ (steps x).sign = SignType.sign (value d)

theorem unit_pos : 0 < unit := by
  rw [unit]
  positivity

theorem sign_exact (x : Float) : SignType.sign (Binary64.exact x) = SignType.sign (steps x) := by
  have positive : (0 : ℚ) < stepsPerOne := Nat.cast_pos.2 (twoTo_pos _)
  rw [Binary64.exact]
  rcases lt_trichotomy (steps x) 0 with below | zero | above
  · rw [sign_neg below, sign_neg (div_neg_of_neg_of_pos (Int.cast_lt_zero.2 below) positive)]
  · rw [zero, Int.cast_zero, zero_div, sign_zero, sign_zero]
  · rw [sign_pos above, sign_pos (div_pos (Int.cast_pos.2 above) positive)]

theorem sign_remainder {a p d : ℚ} (split : a = p + d) (within : |p| ≤ |a|) :
    d = 0 ∨ SignType.sign d = SignType.sign a := by
  rcases lt_trichotomy d 0 with below | zero | above
  · right
    have side : a < 0 := by
      by_contra other
      rw [not_lt] at other
      rw [abs_of_nonneg other] at within
      linarith [le_abs_self p]
    rw [sign_neg below, sign_neg side]
  · exact .inl zero
  · right
    have side : 0 < a := by
      by_contra other
      rw [not_lt] at other
      rw [abs_of_nonpos other] at within
      linarith [neg_le_abs p]
    rw [sign_pos above, sign_pos side]

namespace Laws

variable {decimals : DecimalLibrary} {value : decimals.Number → ℚ} {d : decimals.Number}

theorem unit_le (laws : decimals.Laws value) (filled : value d ≠ 0) : unit ≤ |value d| := by
  obtain ⟨m, whole⟩ := laws.places d
  have some : m ≠ 0 := by
    rintro rfl
    exact filled (by rw [whole, Int.cast_zero, zero_mul])
  have one : (1 : ℚ) ≤ |(m : ℚ)| := by
    rw [← Int.cast_abs]
    exact_mod_cast Int.one_le_abs some
  rw [whole, abs_mul, abs_of_pos unit_pos]
  exact le_mul_of_one_le_left unit_pos.le one

end Laws

end DecimalLibrary

end RecordPipeline
