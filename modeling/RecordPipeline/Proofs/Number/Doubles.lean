import RecordPipeline.Proofs.Number.Decimals
import RecordPipeline.Proofs.Number.Products

/-!
The double of a decimal. A decimal other than zero has a double other than zero: a fraction has at
most 28 places, and a unit in the last of them is still there after it has been divided, added,
multiplied and rounded.
-/

namespace RecordPipeline.Decimal

open Binary64 (Signed Scales steps magnitude stepsPerOne nearestMagnitude stepsOfMagnitude)

def unitSteps (scale : Nat) : Nat :=
  stepsOfMagnitude (nearestMagnitude (tenTo scale) 1)

theorem natAbs_steps_unit (scale : Nat) :
    (steps (Binary64.ofInt (tenTo scale))).natAbs = unitSteps scale := by
  rw [Binary64.natAbs_steps, Binary64.ofInt, Binary64.ofRatio,
    Binary64.magnitude_ofMagnitude (Binary64.nearestMagnitude_le ..)]
  rfl

theorem unit_returns {scale : Nat} (bounded : scale ≤ 28) :
    stepsPerOne ≤ 2 * stepsOfMagnitude (nearestMagnitude
      (stepsOfMagnitude (nearestMagnitude stepsPerOne (unitSteps scale)) * unitSteps scale)
      (stepsPerOne * stepsPerOne)) := by
  have all : ∀ scale < 29, stepsPerOne ≤ 2 * stepsOfMagnitude (nearestMagnitude
      (stepsOfMagnitude (nearestMagnitude stepsPerOne (unitSteps scale)) * unitSteps scale)
      (stepsPerOne * stepsPerOne)) := by
    decide +kernel
  exact all scale (Nat.lt_succ_of_le bounded)

theorem unit_divides {scale : Nat} (bounded : scale ≤ 28) :
    0 < nearestMagnitude stepsPerOne (unitSteps scale) := by
  have all : ∀ scale < 29, 0 < nearestMagnitude stepsPerOne (unitSteps scale) := by
    decide +kernel
  exact all scale (Nat.lt_succ_of_le bounded)

theorem one_le_steps {n : Int} (pos : 0 < n) : stepsPerOne ≤ (steps (Binary64.ofInt n)).natAbs := by
  have one : steps (Binary64.ofInt 1) = stepsPerOne := by
    rw [Binary64.steps_ofInt_exact (by decide), Int.one_mul]
  have least := Binary64.steps_ofInt_mono (show 1 ≤ n by omega)
  simp only [one] at least
  omega

theorem roundAway_pos {x : Float} (h : Signed false x) (half : stepsPerOne ≤ 2 * (steps x).natAbs) :
    0 < Binary64.roundAway x := by
  rw [Binary64.roundAway, Binary64.signed, h.isNegative_eq, if_neg Bool.false_ne_true]
  refine Int.natCast_pos.2 ?_
  rw [roundHalfUp]
  split
  · rename_i less
    refine Nat.pos_of_ne_zero fun zero => ?_
    have small := Nat.mod_eq_of_lt ((Nat.div_eq_zero_iff_lt Binary64.stepsPerOne_pos).1 zero)
    omega
  · exact Nat.succ_pos _

variable {d : Decimal}

theorem rounded_pos {w : Float} {rest : Nat} (whole : Signed false w) (filled : 0 < rest) :
    0 < Binary64.roundAway ((w + Binary64.ofInt rest / Binary64.ofInt (tenTo d.scale)) *
      Binary64.ofInt (tenTo d.scale)) := by
  have unit := scales_unit d
  have fraction : Signed false (Binary64.ofInt rest / Binary64.ofInt (tenTo d.scale)) := by
    simpa only [bne_self_eq_false] using (signed_natCast rest).div unit
  have sum := whole.add fraction
  have product : Signed false ((w + Binary64.ofInt rest / Binary64.ofInt (tenTo d.scale)) *
      Binary64.ofInt (tenTo d.scale)) := by
    simpa only [bne_self_eq_false] using sum.mul unit
  refine roundAway_pos product ?_
  have divided := Binary64.le_magnitude_div (signed_natCast rest) unit
    (one_le_steps (Int.natCast_pos.2 filled))
  have added := Nat.le_trans divided (Binary64.le_magnitude_add whole fraction)
  have counted := Binary64.stepsOfMagnitude_strictMono.monotone added
  rw [← Binary64.natAbs_steps] at counted
  have multiplied := Binary64.stepsOfMagnitude_strictMono.monotone
    (Binary64.le_magnitude_mul sum unit counted)
  rw [← Binary64.natAbs_steps, natAbs_steps_unit] at multiplied
  have returns := unit_returns d.scale_le
  omega

theorem magnitude_size_pos (filled : d.mantissa ≠ 0) : 0 < magnitude d.size := by
  rw [size]
  split
  · rename_i exact
    have split := Nat.div_add_mod d.mantissa (tenTo d.scale)
    have quotient : 0 < d.mantissa / tenTo d.scale := by
      refine Nat.pos_of_ne_zero fun none => ?_
      rw [none, Nat.mul_zero] at split
      omega
    have least := one_le_steps (Int.natCast_pos.2 quotient)
    have one := Binary64.stepsPerOne_pos
    refine Nat.pos_of_ne_zero fun zero => ?_
    rw [Binary64.steps_eq_zero_iff.2 zero] at least
    omega
  · rename_i rest
    have rounds := rounded_pos (d := d) (signed_natCast (d.mantissa / tenTo d.scale))
      (Nat.pos_of_ne_zero rest)
    have places := Binary64.signed_ofInt (Binary64.roundAway
      ((Binary64.ofInt (d.mantissa / tenTo d.scale : Nat) +
        Binary64.ofInt (d.mantissa % tenTo d.scale : Nat) / Binary64.ofInt (tenTo d.scale)) *
        Binary64.ofInt (tenTo d.scale)))
    rw [decide_eq_false (by omega)] at places
    have divided := Binary64.le_magnitude_div places (scales_unit d) (one_le_steps rounds)
    rw [natAbs_steps_unit] at divided
    exact Nat.lt_of_lt_of_le (unit_divides d.scale_le) divided

theorem magnitude_toFloat_pos (filled : d.mantissa ≠ 0) : 0 < magnitude d.toFloat := by
  rw [toFloat_eq]
  split
  · rw [Binary64.magnitude_neg (signed_size d)]
    exact magnitude_size_pos filled
  · exact magnitude_size_pos filled

theorem sign_steps_toFloat (filled : d.mantissa ≠ 0) : (steps d.toFloat).sign = d.sign := by
  have nonzero : steps d.toFloat ≠ 0 := fun zero =>
    Nat.ne_of_gt (magnitude_toFloat_pos filled) (Binary64.steps_eq_zero_iff.1 zero)
  rw [Binary64.sign_steps nonzero, (signed_toFloat filled).isNegative_eq, sign, if_neg filled]

end RecordPipeline.Decimal
