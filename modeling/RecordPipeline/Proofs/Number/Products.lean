import RecordPipeline.Proofs.Number.Signs

/-!
Products and quotients of doubles. The product of two mantissas, or their quotient with what is left
of it, is rounded as a sum is, so both are the doubles nearest to the product and the quotient of the
steps. None of them shrinks when a factor or a dividend grows.
-/

namespace RecordPipeline.Binary64

open Float.Model Float.Model.UnpackedFloat

theorem nearestMagnitude_mul_mul {num den c : Nat} (pos : 0 < c) :
    nearestMagnitude (num * c) (den * c) = nearestMagnitude num den := by
  have numerator : num * c * stepsPerOne = num * stepsPerOne * c := Nat.mul_right_comm ..
  simp only [nearestMagnitude, numerator, Nat.mul_div_mul_right _ _ pos, Nat.mul_right_comm den c,
    roundHalfEven_mul_mul pos]

theorem nearestMagnitude_zero (den : Nat) : nearestMagnitude 0 den = 0 := by
  have rounded (d : Nat) : roundHalfEven 0 d = 0 := by
    rw [roundHalfEven, Nat.zero_div, Nat.zero_mod, if_pos (by omega)]
  rw [nearestMagnitude, Nat.zero_mul, Nat.zero_div, rounded, Nat.log2_zero]
  rfl

variable {x y : Float}

theorem natAbs_steps_eq (x : Float) :
    (steps x).natAbs = gapsOf (magnitude x) * twoTo (magnitude x / binade - 1) := by
  rw [natAbs_steps, stepsOfMagnitude_eq, gapOf]

theorem gapsOf_digits {bits : Nat} (pos : 0 < bits) :
    bits / binade - 1 = 0 ∨ 52 ≤ (gapsOf bits).log2 := by
  by_cases normal : 0 < bits / binade
  · exact .inr ((Nat.le_log2 (Nat.ne_of_gt (gapsOf_pos pos))).2 (binade_le_gapsOf normal))
  · exact .inl (by omega)

theorem log2_le_log2_mul {m k : Nat} (filled : 0 < m) (filled' : 0 < k) :
    m.log2 ≤ (m * k).log2 := by
  rw [Nat.le_log2 (Nat.ne_of_gt (Nat.mul_pos filled filled'))]
  exact Nat.le_trans (Nat.log2_self_le (Nat.ne_of_gt filled)) (Nat.le_mul_of_pos_right m filled')

theorem mul_eq_ofRatio_of_pos (pos : 0 < magnitude x) (finite : magnitude x < infinityBits)
    (pos' : 0 < magnitude y) (finite' : magnitude y < infinityBits) :
    x * y = ofRatio (isNegative x != isNegative y) ((steps x).natAbs * (steps y).natAbs)
      (stepsPerOne * stepsPerOne) := by
  rw [mul_eq_ofParts, ofRatio, parts_finite pos finite, parts_finite pos' finite',
    UnpackedFloat.mul, signOf_mul, natAbs_steps_eq, natAbs_steps_eq]
  have digits := gapsOf_digits pos
  have digits' := gapsOf_digits pos'
  have filled := gapsOf_pos pos
  have filled' := gapsOf_pos pos'
  generalize magnitude x / binade - 1 = i at digits
  generalize magnitude y / binade - 1 = j at digits'
  generalize gapsOf (magnitude x) = m at *
  generalize gapsOf (magnitude y) = k at *
  have exponent : (i : Int) - 1074 + (j - 1074) = (i + j : Nat) - (1074 + 1074 : Nat) := by omega
  have full : 52 ≤ (m * k).log2 ∨ (i : Int) - 1074 + (j - 1074) ≤ -1074 := by
    have left := log2_le_log2_mul filled filled'
    have right := log2_le_log2_mul filled' filled
    rw [Nat.mul_comm k m] at right
    omega
  rw [ofParts_roundWithAccuracy (Summarises.exact _) Nat.one_pos exponent full, Nat.one_mul,
    twoTo_add, twoTo_add, Nat.mul_mul_mul_comm, stepsPerOne]

/-- The product of two doubles is the nearest one to the product of their steps. -/
theorem mul_eq_ofRatio (finite : isFinite x = true) (finite' : isFinite y = true) :
    x * y = ofRatio (isNegative x != isNegative y) ((steps x).natAbs * (steps y).natAbs)
      (stepsPerOne * stepsPerOne) := by
  simp only [isFinite, decide_eq_true_eq] at finite finite'
  rcases Nat.eq_zero_or_pos (magnitude x) with zero | pos
  · have none : (steps x).natAbs = 0 := Int.natAbs_eq_zero.2 (steps_eq_zero_iff.2 zero)
    rw [mul_eq_ofParts, parts_zero zero, none, Nat.zero_mul, ofRatio, nearestMagnitude_zero]
    rcases Nat.eq_zero_or_pos (magnitude y) with zero' | pos'
    · rw [parts_zero zero', UnpackedFloat.mul, signOf_mul]
      exact ofParts_zero
    · rw [parts_finite pos' finite', UnpackedFloat.mul, signOf_mul]
      exact ofParts_zero
  rcases Nat.eq_zero_or_pos (magnitude y) with zero' | pos'
  · have none : (steps y).natAbs = 0 := Int.natAbs_eq_zero.2 (steps_eq_zero_iff.2 zero')
    rw [mul_eq_ofParts, parts_finite pos finite, parts_zero zero', none, Nat.mul_zero, ofRatio,
      nearestMagnitude_zero, UnpackedFloat.mul, signOf_mul]
    exact ofParts_zero
  · exact mul_eq_ofRatio_of_pos pos finite pos' finite'

theorem mul_comm_of_finite (finite : isFinite x = true) (finite' : isFinite y = true) :
    x * y = y * x := by
  rw [mul_eq_ofRatio finite finite', mul_eq_ofRatio finite' finite, bne_comm, Nat.mul_comm]

theorem Summarises.ofFraction (num : Nat) {den : Nat} (pos : 0 < den) :
    Summarises (ExtendedMantissa.ofMantissaAndAccuracy (num / den)
      (accuracyOfFraction (num % den) den)) num den := by
  rw [accuracyOfFraction]
  split
  · rename_i whole
    constructor
    · rfl
    · rw [whole, eq_comm]
      exact decide_eq_false (by omega)
    · rw [whole, eq_comm]
      exact decide_eq_false (by omega)
  · rename_i rest
    rcases Nat.lt_trichotomy (2 * (num % den)) den with less | half | more
    · rw [Nat.compare_eq_lt.2 less]
      exact ⟨rfl, (decide_eq_false (by omega)).symm, (decide_eq_true (by omega)).symm⟩
    · rw [Nat.compare_eq_eq.2 half]
      exact ⟨rfl, (decide_eq_true (by omega)).symm, (decide_eq_false (by omega)).symm⟩
    · rw [Nat.compare_eq_gt.2 more]
      exact ⟨rfl, (decide_eq_true (by omega)).symm, (decide_eq_true (by omega)).symm⟩

theorem divCore_digits {m k a : Nat} {e : Int} (filled : 0 < m) (filled' : 0 < k)
    (extended : e ≤ -1074 ∨ k.log2 + 53 ≤ m.log2 + a) :
    52 ≤ (m * twoTo a / k).log2 ∨ e ≤ -1074 := by
  refine extended.symm.imp_left fun enough => ?_
  have large : twoTo (m.log2 + a) ≤ m * twoTo a := by
    rw [twoTo_add]
    exact Nat.mul_le_mul_right _ (Nat.log2_self_le (Nat.ne_of_gt filled))
  have small : k ≤ twoTo (k.log2 + 1) := Nat.le_of_lt Nat.lt_log2_self
  have quotient : twoTo 52 ≤ m * twoTo a / k := by
    rw [Nat.le_div_iff_mul_le filled']
    calc twoTo 52 * k
        ≤ twoTo 52 * twoTo (k.log2 + 1) := Nat.mul_le_mul_left _ small
      _ = twoTo (52 + (k.log2 + 1)) := (twoTo_add ..).symm
      _ ≤ twoTo (m.log2 + a) := twoTo_le_twoTo (by omega)
      _ ≤ m * twoTo a := large
  have positive : 0 < twoTo 52 := twoTo_pos 52
  exact (Nat.le_log2 (by omega)).2 quotient

theorem div_eq_ofRatio (finite : isFinite x = true) (finite' : isFinite y = true)
    (nonzero : steps y ≠ 0) :
    x / y = ofRatio (isNegative x != isNegative y) (steps x).natAbs (steps y).natAbs := by
  simp only [isFinite, decide_eq_true_eq] at finite finite'
  have pos' : 0 < magnitude y := Nat.pos_of_ne_zero fun zero => nonzero (steps_eq_zero_iff.2 zero)
  rw [div_eq_ofParts, ofRatio, parts_finite pos' finite']
  rcases Nat.eq_zero_or_pos (magnitude x) with zero | pos
  · have none : (steps x).natAbs = 0 := Int.natAbs_eq_zero.2 (steps_eq_zero_iff.2 zero)
    rw [parts_zero zero, none, nearestMagnitude_zero, UnpackedFloat.div, signOf_div]
    exact ofParts_zero
  rw [parts_finite pos finite, UnpackedFloat.div, signOf_div, natAbs_steps_eq, natAbs_steps_eq]
  have filled := gapsOf_pos pos
  have filled' := gapsOf_pos pos'
  generalize magnitude x / binade - 1 = i
  generalize magnitude y / binade - 1 = j
  generalize gapsOf (magnitude x) = m at *
  generalize gapsOf (magnitude y) = k at *
  obtain ⟨e, target⟩ : ∃ e, min ((i : Int) - 1074 - (j - 1074)) (Format.targetExponent .binary64
      (totalExponent m ((i : Int) - 1074) - totalExponent k ((j : Int) - 1074))) = e := ⟨_, rfl⟩
  obtain ⟨a, amount⟩ : ∃ a : Nat, (i : Int) - 1074 - (j - 1074) - e = a :=
    ⟨((i : Int) - 1074 - (j - 1074) - e).toNat, by omega⟩
  have exponent : e = (i : Int) - (j + a : Nat) := by omega
  have extended : e ≤ -1074 ∨ k.log2 + 53 ≤ m.log2 + a := by
    simp only [Format.targetExponent, totalExponent, Format.mantissaBits, Format.minExponent]
      at target
    omega
  simp only [divCore, target, amount, Int.toNat_natCast, Nat.shiftLeft_eq]
  change ofParts (roundWithAccuracy .binary64 _ (m * twoTo a / k) e
    (accuracyOfFraction (m * twoTo a % k) k)) = _
  rw [ofParts_roundWithAccuracy (Summarises.ofFraction _ filled') filled' exponent
    (divCore_digits filled filled' extended), twoTo_add, Nat.mul_right_comm m, ← Nat.mul_assoc k,
    nearestMagnitude_mul_mul (twoTo_pos a)]

section Bounds

variable {u : Float} {lower : Nat}

theorem Signed.finite_or_infinite {negative : Bool} (h : Signed negative x) :
    isFinite x = true ∨ magnitude x = infinityBits := by
  obtain ⟨bits, bounded, rfl⟩ := h
  rw [isFinite, magnitude_ofMagnitude bounded]
  exact (Nat.lt_or_eq_of_le bounded).imp_left decide_eq_true

theorem magnitude_infinity (negative : Bool) :
    magnitude (ofParts (.infinity (signOf negative))) = infinityBits := by
  rw [ofParts_infinity, magnitude_ofMagnitude (Nat.le_refl _)]

theorem Scales.isFinite_eq {negative : Bool} (h : Scales negative u) : isFinite u = true :=
  decide_eq_true h.finite

theorem Scales.steps_ne_zero {negative : Bool} (h : Scales negative u) : steps u ≠ 0 :=
  fun zero => Nat.ne_of_gt h.positive (steps_eq_zero_iff.1 zero)

theorem le_magnitude_mul (first : Signed false x) (second : Scales false u)
    (le : lower ≤ (steps x).natAbs) :
    nearestMagnitude (lower * (steps u).natAbs) (stepsPerOne * stepsPerOne) ≤ magnitude (x * u) := by
  rcases first.finite_or_infinite with finite | infinite
  · rw [mul_eq_ofRatio finite second.isFinite_eq, ofRatio,
      magnitude_ofMagnitude (nearestMagnitude_le ..)]
    exact nearestMagnitude_mono (Nat.mul_le_mul_right _ le)
  · rw [mul_eq_ofParts, parts_infinity infinite, parts_finite second.positive second.finite,
      UnpackedFloat.mul, signOf_mul, magnitude_infinity]
    exact nearestMagnitude_le ..

theorem le_magnitude_div (first : Signed false x) (second : Scales false u)
    (le : lower ≤ (steps x).natAbs) :
    nearestMagnitude lower (steps u).natAbs ≤ magnitude (x / u) := by
  rcases first.finite_or_infinite with finite | infinite
  · rw [div_eq_ofRatio finite second.isFinite_eq second.steps_ne_zero, ofRatio,
      magnitude_ofMagnitude (nearestMagnitude_le ..)]
    exact nearestMagnitude_mono le
  · rw [div_eq_ofParts, parts_infinity infinite, parts_finite second.positive second.finite,
      UnpackedFloat.div, signOf_div, magnitude_infinity]
    exact nearestMagnitude_le ..

theorem Signed.steps_nonneg (h : Signed false x) : 0 ≤ steps x := by
  rw [steps, h.isNegative_eq, if_neg Bool.false_ne_true]
  exact Int.natCast_nonneg _

theorem Signed.magnitude_le {negative : Bool} (h : Signed negative x) :
    magnitude x ≤ infinityBits := by
  obtain ⟨bits, bounded, rfl⟩ := h
  rwa [magnitude_ofMagnitude bounded]

theorem le_magnitude_add (first : Signed false x) (second : Signed false y) :
    magnitude y ≤ magnitude (x + y) := by
  by_cases finite : isFinite x = true ∧ isFinite y = true
  · rw [(rounds_add finite.1 finite.2).magnitude_eq,
      ← nearestMagnitude_stepsOfMagnitude second.magnitude_le, ← natAbs_steps]
    have above := first.steps_nonneg
    have above' := second.steps_nonneg
    exact nearestMagnitude_mono (by omega)
  · have infinite : x + y = ofParts (.infinity (signOf false)) := by
      have left := first.parts
      have right := second.parts
      have some : magnitude x = infinityBits ∨ magnitude y = infinityBits := by
        by_contra none
        rw [not_or] at none
        exact finite ⟨first.finite_or_infinite.resolve_right none.1,
          second.finite_or_infinite.resolve_right none.2⟩
      rw [add_eq_ofParts]
      rcases some with infinite | infinite
      · rw [parts_infinity infinite, first.isNegative_eq]
        generalize parts y = v at right ⊢
        cases right <;> rfl
      · rw [parts_infinity infinite, second.isNegative_eq]
        generalize parts x = u at left ⊢
        cases left <;> rfl
    rw [infinite, magnitude_infinity]
    exact second.magnitude_le

theorem magnitude_neg {negative : Bool} (h : Signed negative x) : magnitude (-x) = magnitude x := by
  rw [neg_eq_ofParts]
  rcases h.finite_or_infinite with finite | infinite
  · simp only [isFinite, decide_eq_true_eq] at finite
    rcases Nat.eq_zero_or_pos (magnitude x) with zero | pos
    · rw [parts_zero zero, UnpackedFloat.neg, neg_signOf, ofParts_zero,
        magnitude_ofMagnitude (Nat.zero_le _), zero]
    · rw [parts_finite pos finite, UnpackedFloat.neg, neg_signOf, ofParts_gaps pos finite,
        magnitude_ofMagnitude (Nat.le_of_lt finite)]
  · rw [parts_infinity infinite, UnpackedFloat.neg, neg_signOf, magnitude_infinity, infinite]

end Bounds

end RecordPipeline.Binary64
