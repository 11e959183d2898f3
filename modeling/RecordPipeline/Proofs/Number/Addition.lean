import RecordPipeline.Proofs.Number.Parts
import RecordPipeline.Proofs.Number.Reading

/-!
Sums of doubles. The mantissas are added as whole numbers and the sum is cut to the digits of a
double; the two bits that are kept of the digits cut off decide as the whole remainder would. So a
sum of doubles is the double nearest to the sum of their steps.
-/

namespace RecordPipeline.Binary64

open Float.Model Float.Model.UnpackedFloat

/-- What a mantissa with two more bits says of a quotient: its whole part, whether the remainder is at
least a half, and whether it differs from zero and from a half. -/
structure Summarises (em : ExtendedMantissa) (num den : Nat) : Prop where
  mantissa : em.mantissa = num / den
  roundBit : em.roundBit = decide (den ≤ 2 * (num % den))
  stickyBit : em.stickyBit = decide (2 * (num % den) ≠ 0 ∧ 2 * (num % den) ≠ den)

namespace Summarises

variable {em : ExtendedMantissa} {num den : Nat}

theorem exact (num : Nat) :
    Summarises (ExtendedMantissa.ofMantissaAndAccuracy num .exact) num 1 := by
  constructor <;> simp [ExtendedMantissa.ofMantissaAndAccuracy, Nat.mod_one]

theorem shiftRightOne (h : Summarises em num den) (pos : 0 < den) :
    Summarises em.shiftRightOne num (2 * den) := by
  have below := Nat.mod_lt num pos
  have halves : num / (2 * den) = num / den / 2 := by
    rw [Nat.mul_comm, Nat.div_div_eq_div_mul]
  have rest : num % (2 * den) = num % den + den * (num / den % 2) := by
    rw [Nat.mul_comm 2, Nat.mod_mul]
  obtain even | odd := Nat.mod_two_eq_zero_or_one (num / den)
  · rw [even, Nat.mul_zero, Nat.add_zero] at rest
    constructor
    · rw [ExtendedMantissa.shiftRightOne, h.mantissa, halves]
    · rw [ExtendedMantissa.shiftRightOne, h.mantissa, even, rest, eq_comm]
      exact decide_eq_false (by omega)
    · rw [ExtendedMantissa.shiftRightOne, h.roundBit, h.stickyBit, rest, ← Bool.decide_or]
      exact decide_eq_decide.2 (by omega)
  · rw [odd, Nat.mul_one] at rest
    constructor
    · rw [ExtendedMantissa.shiftRightOne, h.mantissa, halves]
    · rw [ExtendedMantissa.shiftRightOne, h.mantissa, odd, rest, eq_comm]
      exact decide_eq_true (by omega)
    · rw [ExtendedMantissa.shiftRightOne, h.roundBit, h.stickyBit, rest, ← Bool.decide_or]
      exact decide_eq_decide.2 (by omega)

theorem shiftRight (h : Summarises em num den) (pos : 0 < den) (k : Nat) :
    Summarises (em >>> k) num (twoTo k * den) := by
  change Summarises (k.repeat ExtendedMantissa.shiftRightOne em) _ _
  induction k with
  | zero => rwa [twoTo_zero, Nat.one_mul]
  | succ k ih =>
    rw [Nat.repeat, twoTo_succ, Nat.mul_assoc]
    exact ih.shiftRightOne (Nat.mul_pos (twoTo_pos k) pos)

theorem roundedMantissa (h : Summarises em num den) :
    em.roundedMantissa = roundHalfEven num den := by
  obtain ⟨mantissa, round, sticky⟩ := em
  obtain ⟨quotient, roundBit, stickyBit⟩ := h
  simp only at quotient roundBit stickyBit
  rw [ExtendedMantissa.roundedMantissa, roundHalfEven]
  cases round <;> cases sticky <;>
    simp only [true_eq_decide_iff, false_eq_decide_iff] at roundBit stickyBit <;>
    simp only [ExtendedMantissa.accuracy, Accuracy.roundToNearestEven, quotient] <;>
    split <;> omega

end Summarises

theorem log2_mul_twoTo {m : Nat} (pos : 0 < m) (k : Nat) : (m * twoTo k).log2 = m.log2 + k := by
  induction k with
  | zero => rw [twoTo_zero, Nat.mul_one, Nat.add_zero]
  | succ k ih =>
    have filled : m * twoTo k ≠ 0 := Nat.ne_of_gt (Nat.mul_pos pos (twoTo_pos k))
    rw [twoTo_succ, Nat.mul_left_comm, Nat.log2_two_mul filled, ih, Nat.add_assoc]

theorem roundHalfEven_mul_mul {num den c : Nat} (pos : 0 < c) :
    roundHalfEven (num * c) (den * c) = roundHalfEven num den := by
  have less : 2 * (num % den * c) < den * c ↔ 2 * (num % den) < den := by
    rw [← Nat.mul_assoc, Nat.mul_lt_mul_right pos]
  have same : 2 * (num % den * c) = den * c ↔ 2 * (num % den) = den := by
    rw [← Nat.mul_assoc, Nat.mul_left_inj (Nat.ne_of_gt pos)]
  simp only [roundHalfEven, Nat.mul_div_mul_right _ _ pos, Nat.mul_mod_mul_right, less, same]

section Rounding

variable {negative : Bool} {m j k : Nat}

theorem targetExponent_eq (pos : 0 < m) :
    Format.targetExponent .binary64 (totalExponent m (j - 1074)) =
      ((m * twoTo j).log2 - 52 : Nat) - 1074 := by
  rw [log2_mul_twoTo pos]
  simp only [Format.targetExponent, totalExponent, Format.mantissaBits, Format.minExponent]
  omega

/-- What a mantissa that has been rounded stands for. If it has grown by a digit it is even, and
gives the digit back. -/
def settle (negative : Bool) (q : Nat) (e : Int) : UnpackedFloat :=
  let (em, e) := shiftToTargetExponent .binary64 q e .exact
  if h : em.mantissa = 0 then .zero (signOf negative)
  else .finite (signOf negative) em.mantissa e (Nat.pos_of_ne_zero h)

theorem roundWithAccuracy_eq (e : Int) (accuracy : Accuracy) :
    roundWithAccuracy .binary64 (signOf negative) m e accuracy =
      settle negative (shiftToTargetExponent .binary64 m e accuracy).1.roundedMantissa
        (shiftToTargetExponent .binary64 m e accuracy).2 := rfl

theorem ofParts_settle {q : Nat} (least : k = 0 ∨ binade ≤ q) (most : q ≤ 2 * binade) :
    ofParts (settle negative q (k - 1074)) =
      ofMagnitude negative (min infinityBits (k * binade + q)) := by
  rw [settle]
  rcases Nat.lt_or_eq_of_le most with less | rfl
  · have short : q.log2 ≤ 52 := by
      by_cases zero : q = 0
      · rw [zero, Nat.log2_zero]
        exact Nat.zero_le 52
      · exact Nat.le_of_lt_succ ((Nat.log2_lt zero).2 less)
    have still : (Format.targetExponent .binary64 (totalExponent q (k - 1074)) - (k - 1074)).toNat =
        0 := by
      simp only [Format.targetExponent, totalExponent, Format.mantissaBits, Format.minExponent]
      omega
    rw [shiftToTargetExponent, shiftToExponent, still]
    change ofParts (if h : q = 0 then _ else .finite _ q (k - 1074 + 0) _) = _
    split
    · rename_i zero
      obtain rfl : k = 0 := least.resolve_right (by rw [zero]; decide)
      rw [zero, ofParts_zero]
      rfl
    · rename_i filled
      rw [Int.add_zero]
      exact ofParts_finite _ least less
  · have digits : (2 * binade).log2 = 53 := by decide +kernel
    have once : (Format.targetExponent .binary64 (totalExponent (2 * binade) (k - 1074)) -
        (k - 1074)).toNat = 1 := by
      simp only [Format.targetExponent, totalExponent, Format.mantissaBits, Format.minExponent,
        digits]
      omega
    have next : (k : Int) - 1074 + (1 : Nat) = (k + 1 : Nat) - 1074 := by omega
    have grown : (k + 1) * binade + binade = k * binade + 2 * binade := by rw [Nat.add_mul]; omega
    rw [shiftToTargetExponent, shiftToExponent, once]
    have pos : 0 < binade := by decide
    change ofParts (.finite (signOf negative) binade ((k : Int) - 1074 + (1 : Nat)) pos) = _
    rw [next, ofParts_finite pos (.inr (Nat.le_refl _)) (by decide), grown]

theorem mantissa_bounds {e : Int} {s a : Nat} (full : 52 ≤ m.log2 ∨ e ≤ -1074)
    (target : Format.targetExponent .binary64 (totalExponent m e) = (s : Int) - 1074)
    (amount : (s : Int) - 1074 - e = a) :
    (s = 0 ∨ binade * twoTo a ≤ m) ∧ m < 2 * binade * twoTo a := by
  simp only [Format.targetExponent, totalExponent, Format.mantissaBits, Format.minExponent] at target
  have digits : twoTo 52 = binade := by decide
  rw [← digits, ← twoTo_succ, ← twoTo_add, ← twoTo_add]
  constructor
  · by_cases first : s = 0
    · exact .inl first
    · have filled : m ≠ 0 := by
        rintro rfl
        rw [Nat.log2_zero] at full target
        omega
      have count : 52 + a = m.log2 := by omega
      rw [count]
      exact .inr (Nat.log2_self_le filled)
  · exact Nat.lt_of_lt_of_le Nat.lt_log2_self (twoTo_le_twoTo (by omega))

/-- A mantissa that stands for a quotient and is not cut short by its exponent is rounded to the double
nearest to the quotient. -/
theorem ofParts_roundWithAccuracy {num den i : Nat} {e : Int} {accuracy : Accuracy}
    (stands : Summarises (ExtendedMantissa.ofMantissaAndAccuracy m accuracy) num den) (pos : 0 < den)
    (exponent : e = (i : Int) - k) (full : 52 ≤ m.log2 ∨ e ≤ -1074) :
    ofParts (roundWithAccuracy .binary64 (signOf negative) m e accuracy) =
      ofMagnitude negative (nearestMagnitude (num * twoTo i) (den * twoTo k)) := by
  obtain ⟨s, target⟩ : ∃ s : Nat,
      Format.targetExponent .binary64 (totalExponent m e) = (s : Int) - 1074 := by
    refine ⟨((m.log2 : Int) - 52 + e + 1074).toNat, ?_⟩
    simp only [Format.targetExponent, totalExponent, Format.mantissaBits, Format.minExponent]
    omega
  obtain ⟨a, amount⟩ : ∃ a : Nat, (s : Int) - 1074 - e = a := by
    refine ⟨((s : Int) - 1074 - e).toNat, ?_⟩
    simp only [Format.targetExponent, totalExponent, Format.mantissaBits, Format.minExponent] at target
    omega
  obtain ⟨least, most⟩ := mantissa_bounds full target amount
  have shifted : shiftToTargetExponent .binary64 m e accuracy =
      (ExtendedMantissa.ofMantissaAndAccuracy m accuracy >>> a, (s : Int) - 1074) := by
    rw [shiftToTargetExponent, target, shiftToExponent, amount, Int.toNat_natCast, Prod.mk.injEq]
    exact ⟨rfl, by omega⟩
  have whole : num / den = m := by
    rw [← stands.mantissa]
    cases accuracy with
    | exact => rfl
    | inexact order => cases order <;> rfl
  rw [roundWithAccuracy_eq, shifted, (stands.shiftRight pos a).roundedMantissa]
  -- what is common to numerator and denominator
  have unit : 0 < twoTo i * stepsPerOne := Nat.mul_pos (twoTo_pos i) stepsPerOne_pos
  have numerator : num * twoTo i * stepsPerOne = num * (twoTo i * stepsPerOne) := Nat.mul_assoc ..
  have powers : twoTo k * twoTo s = twoTo a * (twoTo i * stepsPerOne) := by
    rw [stepsPerOne, ← twoTo_add, ← twoTo_add, ← twoTo_add]
    exact congrArg twoTo (by omega)
  have denominator : den * twoTo k * twoTo s = twoTo a * den * (twoTo i * stepsPerOne) := by
    rw [Nat.mul_assoc, powers, Nat.mul_left_comm, Nat.mul_assoc]
  have reach : s = 0 ∨ binade * (twoTo a * den) ≤ num := by
    refine least.imp_right fun le => ?_
    rw [← whole, Nat.le_div_iff_mul_le pos] at le
    rwa [← Nat.mul_assoc]
  have below : num < 2 * binade * (twoTo a * den) := by
    rw [← whole, Nat.div_lt_iff_lt_mul pos] at most
    rwa [← Nat.mul_assoc]
  have near : nearestMagnitude (num * twoTo i) (den * twoTo k) =
      min infinityBits (s * binade + roundHalfEven num (twoTo a * den)) := by
    refine nearestMagnitude_eq (Nat.mul_pos pos (twoTo_pos k)) ?_ ?_ ?_
    · rw [numerator, denominator, ← Nat.mul_assoc binade]
      exact reach.imp_right fun le => Nat.mul_le_mul_right _ le
    · rw [numerator, denominator, ← Nat.mul_assoc (2 * binade)]
      exact Nat.mul_lt_mul_of_pos_right below unit
    · rw [numerator, denominator, roundHalfEven_mul_mul unit]
  rw [near]
  have step : 0 < twoTo a * den := Nat.mul_pos (twoTo_pos a) pos
  have few := (Nat.div_lt_iff_lt_mul step).2 below
  have above := roundHalfEven_le num (twoTo a * den)
  refine ofParts_settle (reach.imp_right fun le => ?_) (by omega)
  exact Nat.le_trans ((Nat.le_div_iff_mul_le step).2 le) (le_roundHalfEven ..)

theorem ofParts_roundWithAccuracy_exact (pos : 0 < m) (le : j ≤ (m * twoTo j).log2 - 52) :
    ofParts (roundWithAccuracy .binary64 (signOf negative) m (j - 1074) .exact) =
      ofMagnitude negative (nearestMagnitude (m * twoTo j) stepsPerOne) := by
  have full : 52 ≤ m.log2 ∨ (j : Int) - 1074 ≤ -1074 := by
    rw [log2_mul_twoTo pos] at le
    omega
  have near := @ofParts_roundWithAccuracy negative m 1074 m 1 j (j - 1074) .exact
    (Summarises.exact m) Nat.one_pos rfl full
  rwa [Nat.one_mul] at near

theorem ofParts_round (pos : 0 < m) :
    ofParts (UnpackedFloat.round .binary64 (signOf negative) m (j - 1074)) =
      ofMagnitude negative (nearestMagnitude (m * twoTo j) stepsPerOne) := by
  rw [UnpackedFloat.round, targetExponent_eq pos]
  generalize shift : (m * twoTo j).log2 - 52 = k
  -- a short mantissa is first filled up with zeros
  rcases Nat.le_total j k with le | le
  · have still : ((j : Int) - 1074 - (k - 1074)).toNat = 0 := by omega
    rw [decreaseExponent, still]
    change ofParts (roundWithAccuracy .binary64 _ m ((j : Int) - 1074 - (0 : Nat)) .exact) = _
    rw [Int.natCast_zero, Int.sub_zero]
    exact ofParts_roundWithAccuracy_exact pos (shift ▸ le)
  · have amount : ((j : Int) - 1074 - (k - 1074)).toNat = j - k := by omega
    have exponent : (j : Int) - 1074 - (j - k : Nat) = k - 1074 := by omega
    have filled : m <<< (j - k) * twoTo k = m * twoTo j := by
      rw [Nat.shiftLeft_eq, Nat.mul_assoc]
      change m * (twoTo (j - k) * twoTo k) = _
      rw [← twoTo_add, Nat.sub_add_cancel le]
    have filledPos : 0 < m <<< (j - k) := by
      rw [Nat.shiftLeft_eq]
      exact Nat.mul_pos pos (twoTo_pos _)
    rw [decreaseExponent, amount]
    change ofParts (roundWithAccuracy .binary64 _ (m <<< (j - k)) ((j : Int) - 1074 - (j - k : Nat))
      .exact) = _
    rw [exponent, ofParts_roundWithAccuracy_exact filledPos (by rw [filled, shift]), filled]

end Rounding

section Steps

variable {x y : Float}

theorem eq_ofMagnitude (number : magnitude x ≤ infinityBits) :
    x = ofMagnitude (isNegative x) (magnitude x) := by
  refine eq_of_toBits ?_
  have size := x.toBits.toNat_lt
  rw [toNat_ofMagnitude number, magnitude, isNegative]
  rw [signBit] at *
  by_cases negative : 0x8000000000000000 ≤ x.toBits.toNat
  · rw [if_pos (decide_eq_true negative)]
    omega
  · rw [if_neg (by simpa using negative)]
    omega

theorem nearestMagnitude_stepsOfMagnitude {bits : Nat} (number : bits ≤ infinityBits) :
    nearestMagnitude (stepsOfMagnitude bits) stepsPerOne = bits := by
  have whole := magnitude_eq bits
  have positive := Nat.mul_pos stepsPerOne_pos (gapOf_pos bits)
  have counted : stepsOfMagnitude bits * stepsPerOne = gapsOf bits * (stepsPerOne * gapOf bits) := by
    rw [stepsOfMagnitude_eq, Nat.mul_assoc, Nat.mul_comm (gapOf bits)]
  rw [nearestMagnitude_eq stepsPerOne_pos (s := bits / binade - 1) (k := gapsOf bits), whole,
    Nat.min_eq_right number]
  · by_cases normal : 0 < bits / binade
    · right
      rw [counted]
      exact Nat.mul_le_mul_right _ (binade_le_gapsOf normal)
    · left
      omega
  · rw [counted]
    exact Nat.mul_lt_mul_of_pos_right (gapsOf_lt bits) positive
  · rw [counted]
    exact roundHalfEven_mul positive _

theorem natAbs_steps (x : Float) : (steps x).natAbs = stepsOfMagnitude (magnitude x) := by
  rw [steps]
  split <;> omega

theorem eq_ofSteps (number : magnitude x ≤ infinityBits) :
    x = ofSteps (isNegative x) (steps x).natAbs := by
  rw [ofSteps, ofRatio, natAbs_steps, nearestMagnitude_stepsOfMagnitude number]
  exact eq_ofMagnitude number

theorem steps_eq_zero_iff : steps x = 0 ↔ magnitude x = 0 := by
  rw [← Int.natAbs_eq_zero, natAbs_steps]
  exact stepsOfMagnitude_strictMono.injective.eq_iff' rfl

theorem isNegative_eq (nonzero : steps x ≠ 0) : isNegative x = decide (steps x < 0) := by
  rw [steps] at nonzero ⊢
  cases negative : isNegative x with
  | true =>
    rw [negative, if_pos rfl] at nonzero
    rw [if_pos rfl, eq_comm]
    exact decide_eq_true (by omega)
  | false =>
    rw [if_neg Bool.false_ne_true, eq_comm]
    exact decide_eq_false (by omega)

theorem sign_of_ne_zero {n : Int} (nonzero : n ≠ 0) :
    n.sign = if decide (n < 0) then -1 else 1 := by
  rcases Int.lt_or_gt_of_ne nonzero with negative | positive
  · rw [Int.sign_eq_neg_one_of_neg negative, decide_eq_true negative]
    rfl
  · rw [Int.sign_eq_one_of_pos positive, decide_eq_false (by omega)]
    rfl

theorem sign_steps (nonzero : steps x ≠ 0) :
    (steps x).sign = if isNegative x then -1 else 1 := by
  rw [isNegative_eq nonzero]
  exact sign_of_ne_zero nonzero

theorem ofParts_normalize {n : Int} (nonzero : n ≠ 0) (j : Nat) (s : Sign) :
    ofParts (UnpackedFloat.normalize .binary64 n (j - 1074) s) =
      ofSteps (decide (n < 0)) (n.natAbs * twoTo j) := by
  rw [UnpackedFloat.normalize]
  rcases Int.lt_or_gt_of_ne nonzero with negative | positive
  · rw [Int.compare_eq_lt.2 negative, decide_eq_true negative]
    have size : (-n).toNat = n.natAbs := by omega
    rw [size]
    exact @ofParts_round true _ _ (Int.natAbs_pos.2 nonzero)
  · rw [Int.compare_eq_gt.2 positive, decide_eq_false (Int.not_lt.2 (Int.le_of_lt positive))]
    have size : n.toNat = n.natAbs := by omega
    rw [size]
    exact @ofParts_round false _ _ (Int.natAbs_pos.2 nonzero)

theorem steps_eq_apply {i : Nat} (le : i ≤ magnitude x / binade - 1) :
    steps x = (signOf (isNegative x)).apply
      (gapsOf (magnitude x) <<< (magnitude x / binade - 1 - i) : Nat) * twoTo i := by
  have shifted : gapsOf (magnitude x) <<< (magnitude x / binade - 1 - i) * twoTo i =
      stepsOfMagnitude (magnitude x) := by
    rw [stepsOfMagnitude_eq, gapOf, Nat.shiftLeft_eq, Nat.mul_assoc]
    change _ * (twoTo (magnitude x / binade - 1 - i) * twoTo i) = _
    rw [← twoTo_add, Nat.sub_add_cancel le]
  rw [steps, ← shifted]
  cases isNegative x
  · simp [signOf, Sign.apply]
  · simp [signOf, Sign.apply]

theorem ofParts_gaps {negative : Bool} {bits : Nat} (pos : 0 < bits) (finite : bits < infinityBits) :
    ofParts (.finite (signOf negative) (gapsOf bits) ((bits / binade - 1 : Nat) - 1074)
      (gapsOf_pos pos)) = ofMagnitude negative bits := by
  have least : bits / binade - 1 = 0 ∨ binade ≤ gapsOf bits := by
    by_cases normal : 0 < bits / binade
    · exact .inr (binade_le_gapsOf normal)
    · exact .inl (by omega)
  rw [ofParts_finite _ least (gapsOf_lt _), magnitude_eq, Nat.min_eq_right (Nat.le_of_lt finite)]

theorem ofParts_parts (pos : 0 < magnitude x) (finite : magnitude x < infinityBits) :
    ofParts (parts x) = x := by
  rw [parts_finite pos finite, ofParts_gaps pos finite]
  exact (eq_ofMagnitude (Nat.le_of_lt finite)).symm

theorem abs_eq_ofMagnitude (finite : magnitude x < infinityBits) :
    x.abs = ofMagnitude false (magnitude x) := by
  rw [abs_eq_ofParts]
  rcases Nat.eq_zero_or_pos (magnitude x) with zero | pos
  · rw [parts_zero zero, zero, UnpackedFloat.abs]
    exact @ofParts_zero false
  · rw [parts_finite pos finite, UnpackedFloat.abs]
    exact @ofParts_gaps false _ pos finite

theorem ofSteps_zero (negative : Bool) : ofSteps negative 0 = ofMagnitude negative 0 := by
  have fixed := nearestMagnitude_stepsOfMagnitude (Nat.zero_le infinityBits)
  have none : stepsOfMagnitude 0 = 0 := by decide
  rw [none] at fixed
  rw [ofSteps, ofRatio, fixed]

/-- What a sum of doubles is told to be: the double nearest to a count of steps, with the sign of the
count unless that is zero. -/
def Rounds (z : Float) (count : Int) : Prop :=
  ∃ negative, z = ofSteps negative count.natAbs ∧ (count ≠ 0 → negative = decide (count < 0))

theorem rounds_self (number : magnitude x ≤ infinityBits) : Rounds x (steps x) :=
  ⟨isNegative x, eq_ofSteps number, isNegative_eq⟩

theorem rounds_zero (negative : Bool) : Rounds (ofParts (.zero (signOf negative))) 0 :=
  ⟨negative, by rw [ofParts_zero, Int.natAbs_zero, ofSteps_zero], fun nonzero => absurd rfl nonzero⟩

theorem rounds_normalize (n : Int) (j : Nat) :
    Rounds (ofParts (UnpackedFloat.normalize .binary64 n (j - 1074) .positive)) (n * twoTo j) := by
  by_cases zero : n = 0
  · rw [zero, Int.zero_mul]
    exact rounds_zero false
  · have unit : (0 : Int) < twoTo j := Int.natCast_pos.2 (twoTo_pos j)
    refine ⟨decide (n < 0), ?_, fun _ => decide_eq_decide.2 ?_⟩
    · rw [ofParts_normalize zero, Int.natAbs_mul, Int.natAbs_natCast]
    · rw [mul_neg_iff]
      omega

/-- The sum of two doubles is the nearest double to the sum of their steps. -/
theorem rounds_add (finite : isFinite x = true) (finite' : isFinite y = true) :
    Rounds (x + y) (steps x + steps y) := by
  simp only [isFinite, decide_eq_true_eq] at finite finite'
  rw [add_eq_ofParts]
  rcases Nat.eq_zero_or_pos (magnitude x) with zero | pos
  · rw [steps_eq_zero_iff.2 zero, Int.zero_add, parts_zero zero]
    rcases Nat.eq_zero_or_pos (magnitude y) with zero' | pos'
    · rw [steps_eq_zero_iff.2 zero', parts_zero zero', UnpackedFloat.add]
      split
      · exact rounds_zero _
      · exact rounds_zero false
    · have kept : UnpackedFloat.add .binary64 (.zero (signOf (isNegative x))) (parts y) = parts y := by
        rw [parts_finite pos' finite']
        rfl
      rw [kept, ofParts_parts pos' finite']
      exact rounds_self (Nat.le_of_lt finite')
  · rcases Nat.eq_zero_or_pos (magnitude y) with zero' | pos'
    · rw [steps_eq_zero_iff.2 zero', Int.add_zero, parts_zero zero']
      have kept : UnpackedFloat.add .binary64 (parts x) (.zero (signOf (isNegative y))) = parts x := by
        rw [parts_finite pos finite]
        rfl
      rw [kept, ofParts_parts pos finite]
      exact rounds_self (Nat.le_of_lt finite)
    · have left := steps_eq_apply (x := x) (Nat.min_le_left _ (magnitude y / binade - 1))
      have right := steps_eq_apply (x := y) (Nat.min_le_right (magnitude x / binade - 1) _)
      rw [left, right, ← Int.add_mul, parts_finite pos finite, parts_finite pos' finite']
      generalize magnitude x / binade - 1 = i
      generalize magnitude y / binade - 1 = j
      have smaller : min ((i : Int) - 1074) (j - 1074) = (min i j : Nat) - 1074 := by omega
      have first : ((i : Int) - 1074 - ((min i j : Nat) - 1074)).toNat = i - min i j := by omega
      have second : ((j : Int) - 1074 - ((min i j : Nat) - 1074)).toNat = j - min i j := by omega
      rw [UnpackedFloat.add]
      simp only [smaller, decreaseExponent, first, second]
      exact rounds_normalize _ _

variable {z : Float} {count : Int}

theorem Rounds.magnitude_eq (h : Rounds z count) :
    magnitude z = nearestMagnitude count.natAbs stepsPerOne := by
  obtain ⟨negative, rfl, -⟩ := h
  exact magnitude_ofMagnitude (nearestMagnitude_le ..)

theorem Rounds.isNaN_eq (h : Rounds z count) : isNaN z = false := by
  rw [isNaN, h.magnitude_eq]
  exact decide_eq_false (Nat.not_lt.2 (nearestMagnitude_le ..))

theorem Rounds.magnitude_le (h : Rounds z count) (number : magnitude y ≤ infinityBits)
    (le : count.natAbs ≤ (steps y).natAbs) : magnitude z ≤ magnitude y := by
  rw [h.magnitude_eq, ← nearestMagnitude_stepsOfMagnitude number, ← natAbs_steps]
  exact nearestMagnitude_mono le

theorem natAbs_steps_le (le : magnitude x ≤ magnitude y) :
    (steps x).natAbs ≤ (steps y).natAbs := by
  rw [natAbs_steps, natAbs_steps]
  exact stepsOfMagnitude_strictMono.monotone le

theorem Rounds.isNegative_eq (h : Rounds z count) (nonzero : count ≠ 0) :
    isNegative z = decide (count < 0) := by
  obtain ⟨negative, rfl, sign⟩ := h
  exact (isNegative_ofMagnitude (nearestMagnitude_le ..)).trans (sign nonzero)

theorem Rounds.steps_of_zero (h : Rounds z 0) : steps z = 0 := by
  have fixed := nearestMagnitude_stepsOfMagnitude (Nat.zero_le infinityBits)
  have none : stepsOfMagnitude 0 = 0 := by decide
  rw [none] at fixed
  exact steps_eq_zero_iff.2 (h.magnitude_eq.trans fixed)

theorem Rounds.nonneg (h : Rounds z count) (nonneg : 0 ≤ count) : 0 ≤ steps z := by
  by_cases zero : count = 0
  · exact Int.le_of_eq (zero ▸ h).steps_of_zero.symm
  · rw [steps, h.isNegative_eq zero, decide_eq_false (Int.not_lt.2 nonneg),
      if_neg Bool.false_ne_true]
    exact Int.natCast_nonneg _

theorem Rounds.nonpos (h : Rounds z count) (nonpos : count ≤ 0) : steps z ≤ 0 := by
  by_cases zero : count = 0
  · exact Int.le_of_eq (zero ▸ h).steps_of_zero
  · rw [steps, h.isNegative_eq zero, decide_eq_true (by omega), if_pos rfl]
    omega

end Steps

end RecordPipeline.Binary64
