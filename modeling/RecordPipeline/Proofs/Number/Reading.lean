import RecordPipeline.Number.Reading
import RecordPipeline.Proofs.Number.Shortest

/-!
A decimal in the interval of a double is read as that double. The reader forms no power for decimals
far from one, and none of them lies in such an interval.
-/

namespace RecordPipeline

theorem tenTo_le_tenTo {n m : Nat} (h : n ≤ m) : tenTo n ≤ tenTo m :=
  Nat.pow_le_pow_right (by decide) h

theorem twoTo_le_twoTo {n m : Nat} (h : n ≤ m) : twoTo n ≤ twoTo m :=
  Nat.pow_le_pow_right (by decide) h

theorem twoTo_add (n m : Nat) : twoTo (n + m) = twoTo n * twoTo m :=
  Nat.pow_add 2 n m

theorem twoTo_le_tenTo {n m : Nat} (h : n ≤ 3 * m) : twoTo n ≤ tenTo m := by
  have eight : twoTo (3 * m) = (2 ^ 3) ^ m := Nat.pow_mul 2 3 m
  refine Nat.le_trans (twoTo_le_twoTo h) ?_
  rw [eight]
  exact Nat.pow_le_pow_left (by decide) m

namespace Binary64

variable {bits : Nat}

theorem den_intervalOf (bits : Nat) : (intervalOf bits).den = twoTo 1076 := by
  have four : twoTo 2 = 4 := rfl
  rw [show 1076 = 2 + 1074 from rfl, twoTo_add, four, intervalOf, stepsPerOne]

theorem high_lt (finite : bits < infinityBits) :
    (intervalOf bits).high < twoTo 1026 * (intervalOf bits).den := by
  have exponent : bits / binade < 2047 := (Nat.div_lt_iff_lt_mul (by decide)).2 finite
  have gap : gapOf bits ≤ twoTo 2045 := twoTo_le_twoTo (by omega)
  have gaps : gapsOf bits < 0x20000000000000 := gapsOf_lt bits
  have most := Nat.mul_le_mul (Nat.le_of_lt gaps) gap
  have literal : twoTo 57 = 0x200000000000000 := rfl
  have top : twoTo 1026 * (intervalOf bits).den = 0x200000000000000 * twoTo 2045 := by
    rw [den_intervalOf, ← twoTo_add, ← literal, ← twoTo_add]
  have positive := twoTo_pos 2045
  rw [high_intervalOf, top]
  omega

theorem low_pos (pos : 0 < bits) : 0 < (intervalOf bits).low := by
  have gap := gapOf_pos bits
  have least := Nat.le_mul_of_pos_left (gapOf bits) (gapsOf_pos pos)
  rw [low_intervalOf, lowerGap]
  split <;> omega

section InRange

variable {num den : Nat}

theorem Interval.Holds.num_lt (finite : bits < infinityBits) (posDen : 0 < den)
    (h : (intervalOf bits).Holds num den) : num < tenTo 400 * den := by
  have unit : 0 < (intervalOf bits).den := den_intervalOf bits ▸ twoTo_pos 1076
  refine Nat.lt_of_mul_lt_mul_right (a := (intervalOf bits).den) ?_
  calc num * (intervalOf bits).den
      ≤ (intervalOf bits).high * den := h.high.le
    _ < twoTo 1026 * (intervalOf bits).den * den := Nat.mul_lt_mul_of_pos_right (high_lt finite) posDen
    _ ≤ tenTo 400 * (intervalOf bits).den * den :=
      Nat.mul_le_mul_right den (Nat.mul_le_mul_right _ (twoTo_le_tenTo (by omega)))
    _ = tenTo 400 * den * (intervalOf bits).den := Nat.mul_right_comm ..

theorem Interval.Holds.lt_num (pos : 0 < bits) (h : (intervalOf bits).Holds num den) :
    den ≤ num * tenTo 400 :=
  calc den ≤ (intervalOf bits).low * den := Nat.le_mul_of_pos_left den (low_pos pos)
    _ ≤ num * (intervalOf bits).den := h.low.le
    _ ≤ num * tenTo 400 := by
      rw [den_intervalOf]
      exact Nat.mul_le_mul_left num (twoTo_le_tenTo (by omega))

end InRange

theorem Interval.Holds.places {d : Digits} (pos : 0 < bits) (finite : bits < infinityBits)
    (h : (intervalOf bits).Holds d.num d.den) :
    d.digits ≠ 0 ∧ -400 ≤ d.exponent + (Nat.toDigits 10 d.digits).length ∧
      d.exponent + (Nat.toDigits 10 d.digits).length ≤ 400 := by
  have least := h.lt_num pos
  have most := h.num_lt finite d.den_pos
  have some : d.digits ≠ 0 := by
    intro none
    rw [Digits.num, none, Nat.zero_mul, Nat.zero_mul] at least
    exact absurd d.den_pos (Nat.not_lt.2 least)
  have below := lt_tenTo_length d.digits
  have above := tenTo_length_le (Nat.pos_of_ne_zero some)
  have length : 0 < (Nat.toDigits 10 d.digits).length := Nat.length_toDigits_pos
  generalize (Nat.toDigits 10 d.digits).length = count at below above length ⊢
  rw [Digits.num, Digits.den] at least most
  refine ⟨some, Int.not_lt.1 fun small => ?_, Int.not_lt.1 fun large => ?_⟩
  · have bound : tenTo (-d.exponent).toNat < tenTo (-d.exponent).toNat :=
      calc tenTo (-d.exponent).toNat
          ≤ d.digits * tenTo d.exponent.toNat * tenTo 400 := least
        _ < tenTo count * tenTo d.exponent.toNat * tenTo 400 :=
          Nat.mul_lt_mul_of_pos_right (Nat.mul_lt_mul_of_pos_right below (tenTo_pos _)) (tenTo_pos _)
        _ = tenTo (count + d.exponent.toNat + 400) := by
          rw [Digits.tenTo_add, Digits.tenTo_add]
        _ ≤ tenTo (-d.exponent).toNat := tenTo_le_tenTo (by omega)
    exact Nat.lt_irrefl _ bound
  · have bound : tenTo (400 + (-d.exponent).toNat) < tenTo (400 + (-d.exponent).toNat) :=
      calc tenTo (400 + (-d.exponent).toNat)
          ≤ tenTo (count - 1 + d.exponent.toNat) := tenTo_le_tenTo (by omega)
        _ = tenTo (count - 1) * tenTo d.exponent.toNat := Digits.tenTo_add _ _
        _ ≤ d.digits * tenTo d.exponent.toNat := Nat.mul_le_mul_right _ above
        _ < tenTo 400 * tenTo (-d.exponent).toNat := most
        _ = tenTo (400 + (-d.exponent).toNat) := (Digits.tenTo_add _ _).symm
    exact Nat.lt_irrefl _ bound

end Binary64

open Binary64

/-- A decimal in the interval of a double is read as that double. -/
theorem Number.ofDecimal_of_holds {bits : Nat} {d : Digits} (pos : 0 < bits)
    (finite : bits < infinityBits) (h : (intervalOf bits).Holds d.num d.den) :
    ofDecimal false d.digits d.exponent = ofMagnitude false bits := by
  obtain ⟨some, least, most⟩ := h.places pos finite
  rw [ofDecimal, if_neg (by omega), if_neg (by omega), ofRatio]
  exact congrArg _ (nearestMagnitude_of_holds finite d.den_pos h)

end RecordPipeline
