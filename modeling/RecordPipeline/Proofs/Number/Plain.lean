import RecordPipeline.Json.Printer
import RecordPipeline.Proofs.Number.Addition
import RecordPipeline.Proofs.Number.Literals

/-!
Doubles without exponents. Below `10 ^ 16` a finite double is written with a point and at least one
digit behind it. From there on its shortest digits end before the point, and nothing is written behind
them: what is left are a sign and the digits of a whole number.
-/

namespace RecordPipeline

open Text

namespace Binary64

namespace Digits

theorem exponent_le_trimFrom (fuel : Nat) (d : Digits) :
    d.exponent ≤ (trimFrom fuel d).exponent := by
  induction fuel generalizing d with
  | zero => exact Int.le_refl _
  | succ fuel ih =>
    rw [trimFrom]
    split
    · have := ih ⟨d.digits / 10, d.exponent + 1⟩
      dsimp only at this
      omega
    · exact Int.le_refl _

theorem toDigits_mul_tenTo {n : Nat} (pos : 0 < n) (zeros : Nat) :
    Nat.toDigits 10 (n * tenTo zeros) = Nat.toDigits 10 n ++ List.replicate zeros '0' := by
  induction zeros with
  | zero => simp
  | succ zeros ih =>
    have one : Nat.toDigits 10 0 = ['0'] := rfl
    have next := Nat.toDigits_append_toDigits (b := 10) (d := 0) (by decide)
      (Nat.mul_pos pos (tenTo_pos zeros)) (by decide)
    rw [tenTo_succ, Nat.mul_left_comm, ← Nat.add_zero (10 * _), ← next, ih, one, List.append_assoc,
      ← List.replicate_succ']

theorem positional_of_whole {d : Digits} (whole : 0 ≤ d.exponent) (pos : 0 < d.digits) :
    d.positional.toList = Nat.toDigits 10 d.num := by
  rw [positional, if_pos whole, num, toDigits_mul_tenTo pos]
  simp [zeros]

end Digits

theorem Interval.exponent_shortestFrom (range : Interval) {top : Int} {tries count : Nat}
    (far : (count + tries : Int) ≤ top + 1) : 0 ≤ (range.shortestFrom top tries count).exponent := by
  induction tries generalizing count with
  | zero =>
    rw [shortestFrom]
    exact Int.natCast_nonneg count
  | succ tries ih =>
    rw [shortestFrom]
    split
    · dsimp only
      omega
    · exact ih (by omega)

variable {x : Float}

theorem exponent_nonneg_of_isLarge (large : isLarge x = true) : 0 ≤ (shortest x).exponent := by
  have size : tenTo 16 * stepsPerOne ≤ stepsOfMagnitude (magnitude x) := by
    rw [← natAbs_steps]
    simpa [isLarge] using large
  have quotient : tenTo 16 ≤ (intervalOf (magnitude x)).value / (intervalOf (magnitude x)).den := by
    refine (Nat.le_div_iff_mul_le (ordered_intervalOf _).den).2 ?_
    change tenTo 16 * (4 * stepsPerOne) ≤ 4 * stepsOfMagnitude (magnitude x)
    rw [Nat.mul_left_comm]
    exact Nat.mul_le_mul_left 4 size
  have places : (17 : Int) ≤ leadingPlace (intervalOf (magnitude x)).value
      (intervalOf (magnitude x)).den := by
    have digits := Nat.lt_of_le_of_lt quotient (lt_tenTo_length _)
    have more := (Nat.pow_lt_pow_iff_right (by decide)).1 digits
    rw [leadingPlace, if_pos]
    · omega
    · refine Nat.not_lt.1 fun less => ?_
      rw [Nat.div_eq_of_lt less] at quotient
      exact absurd quotient (by decide)
  exact Int.le_trans (Interval.exponent_shortestFrom _ (by omega)) (Digits.exponent_le_trimFrom _ _)

theorem pos_of_fractional {bits : Nat} (fractional : stepsOfMagnitude bits % stepsPerOne ≠ 0) :
    0 < bits := by
  refine Nat.pos_of_ne_zero fun none => fractional ?_
  have zero : stepsOfMagnitude 0 = 0 := rfl
  rw [none, zero, Nat.zero_mod]

theorem exponent_neg_of_fractional (fractional : stepsOfMagnitude (magnitude x) % stepsPerOne ≠ 0) :
    (shortest x).exponent < 0 := by
  have holds := shortest_holds (x := x) rfl (pos_of_fractional fractional)
  refine Int.not_le.1 fun whole => fractional ?_
  rw [Digits.den, show (-(shortest x).exponent).toNat = 0 by omega] at holds
  exact whole_of_holds holds

theorem magnitude_pos_of_isLarge (large : isLarge x = true) : 0 < magnitude x := by
  refine Nat.pos_of_ne_zero fun none => ?_
  have size : tenTo 16 * stepsPerOne ≤ (steps x).natAbs := of_decide_eq_true large
  rw [steps_eq_zero_iff.2 none] at size
  exact absurd size (Nat.not_le.2 (Nat.mul_pos (tenTo_pos 16) stepsPerOne_pos))

theorem digits_shortest_pos (pos : 0 < magnitude x) : 0 < (shortest x).digits := by
  have gap := gapOf_pos (magnitude x)
  have least := Nat.le_mul_of_pos_left (gapOf (magnitude x)) (gapsOf_pos pos)
  have low : 0 < (intervalOf (magnitude x)).low := by
    rw [low_intervalOf, lowerGap]
    split <;> omega
  have holds := (shortest_holds (x := x) rfl pos).low.le
  have reached := Nat.lt_of_lt_of_le (Nat.mul_pos low (Digits.den_pos _)) holds
  refine Nat.pos_of_ne_zero fun none => ?_
  rw [Digits.num, none, Nat.zero_mul, Nat.zero_mul] at reached
  exact Nat.lt_irrefl 0 reached

section Finite

variable (finite : isFinite x = true)

include finite

theorem isWhole_iff : isWhole x = true ↔ stepsOfMagnitude (magnitude x) % stepsPerOne = 0 := by
  rw [isWhole, finite, Bool.true_and, beq_iff_eq, ← natAbs_steps, ← Int.dvd_iff_emod_eq_zero,
    Int.natCast_dvd, Nat.dvd_iff_mod_eq_zero]

theorem plainText_eq (pos : 0 < magnitude x) :
    (plainText x).toList = (sign x).toList ++ (shortest x).positional.toList := by
  have bounded : magnitude x < infinityBits := of_decide_eq_true finite
  have some : (steps x == 0) = false := by
    rw [beq_eq_false_iff_ne, ne_eq, steps_eq_zero_iff]
    omega
  rw [plainText, if_neg, if_neg, some, if_neg Bool.false_ne_true, String.toList_append]
  · rw [isInfinite, beq_iff_eq]
    omega
  · rw [isNaN, decide_eq_true_iff]
    omega

end Finite

end Binary64

namespace Json

open Binary64

variable {x : Float}

theorem floatText_of_isLarge (finite : isFinite x = true) (large : isLarge x = true) :
    (floatText x).toList = (sign x).toList ++ Nat.toDigits 10 (shortest x).num := by
  have pos := magnitude_pos_of_isLarge large
  rw [floatText, finite, large, Bool.not_true, if_neg Bool.false_ne_true, Bool.and_false,
    if_neg Bool.false_ne_true, plainText_eq finite pos,
    Digits.positional_of_whole (exponent_nonneg_of_isLarge large) (digits_shortest_pos pos)]

theorem floatText_of_not_isLarge (finite : isFinite x = true) (small : isLarge x = false) :
    ∃ n : Numeral, n.WellFormed ∧ n.exponent = none ∧ n.isFloat = true ∧
      (floatText x).toList = (sign x).toList ++ n.text := by
  rw [floatText, finite, small, Bool.not_true, if_neg Bool.false_ne_true, Bool.not_false,
    Bool.and_true]
  split
  · refine ⟨wholeNumeral (trunc x).natAbs, wholeNumeral_wellFormed _, rfl, rfl, ?_⟩
    simp [wholeText, wholeNumeral, Numeral.text, Numeral.point, Numeral.power]
  · rename_i fractional
    rw [isWhole_iff finite] at fractional
    have negative := exponent_neg_of_fractional fractional
    refine ⟨_, Digits.positional_wellFormed (shortest x), ?_, (Digits.positional_decimal negative).2,
      by rw [plainText_eq finite (pos_of_fractional fractional), Digits.positional_text negative]⟩
    rw [Digits.positionalNumeral]
    split <;> rfl

end Json

end RecordPipeline
