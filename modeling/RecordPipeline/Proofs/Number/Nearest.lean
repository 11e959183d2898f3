import RecordPipeline.Number.Shortest

/-!
The double nearest to a fraction. Every double has an interval of reals that are nearest to it, and a
fraction in the interval of a double is read as that double. The end points belong to the double
whose fraction is even, as roundHalfEven decides.
-/

namespace RecordPipeline

theorem roundHalfEven_eq {num den k : Nat} (pos : 0 < den)
    (low : 2 * (k * den) < 2 * num + den ∨ k % 2 = 0 ∧ 2 * (k * den) = 2 * num + den)
    (high : 2 * num < 2 * (k * den) + den ∨ k % 2 = 0 ∧ 2 * num = 2 * (k * den) + den) :
    roundHalfEven num den = k := by
  have split := Nat.div_add_mod num den
  have small := Nat.mod_lt num pos
  by_cases above : k * den ≤ num
  · have quotient : num / den = k := by
      refine Nat.div_eq_of_lt_le above ?_
      rw [Nat.add_mul]
      omega
    rw [quotient, Nat.mul_comm] at split
    rw [roundHalfEven, quotient, if_pos (by omega)]
  · obtain ⟨j, rfl⟩ : ∃ j, k = j + 1 := by
      cases k with
      | zero => omega
      | succ j => exact ⟨j, rfl⟩
    rw [Nat.add_mul, Nat.one_mul] at low high above
    have quotient : num / den = j := by
      refine Nat.div_eq_of_lt_le (by omega) ?_
      rw [Nat.add_mul]
      omega
    rw [quotient, Nat.mul_comm] at split
    rw [roundHalfEven, quotient, if_neg (by omega)]

namespace Binary64

namespace Interval

/-- A point past an edge, or on it if the edges belong to the interval. -/
def Passes (range : Interval) (edge point : Nat) : Prop :=
  edge < point ∨ range.closed = true ∧ edge = point

structure Holds (range : Interval) (num den : Nat) : Prop where
  low : range.Passes (range.low * den) (num * range.den)
  high : range.Passes (num * range.den) (range.high * den)

theorem Passes.le {range : Interval} {edge point : Nat} (h : range.Passes edge point) :
    edge ≤ point := by
  rcases h with h | h <;> omega

end Interval

theorem stepsPerOne_pos : 0 < stepsPerOne :=
  twoTo_pos 1074

def gapOf (bits : Nat) : Nat :=
  twoTo (bits / binade - 1)

def gapsOf (bits : Nat) : Nat :=
  if bits / binade = 0 then bits else binade + bits % binade

theorem gapOf_pos (bits : Nat) : 0 < gapOf bits :=
  twoTo_pos _

theorem gapsOf_lt (bits : Nat) : gapsOf bits < 2 * binade := by
  have small : bits % binade < binade := Nat.mod_lt bits (by decide)
  rw [gapsOf]
  split
  · rename_i first
    have := Nat.div_add_mod bits binade
    rw [first] at this
    omega
  · omega

theorem stepsOfMagnitude_eq (bits : Nat) : stepsOfMagnitude bits = gapsOf bits * gapOf bits := by
  simp only [stepsOfMagnitude, gapsOf, gapOf]
  split
  · rename_i first
    rw [first, twoTo_zero, Nat.mul_one]
    rw [Nat.div_eq_zero_iff] at first
    exact Nat.mod_eq_of_lt (first.resolve_left (by decide))
  · rfl

theorem shift_eq {count s : Nat} (least : s = 0 ∨ binade * twoTo s ≤ count)
    (most : count < 2 * binade * twoTo s) : count.log2 - 52 = s := by
  have binadePower : binade = 2 ^ 52 := by decide
  have power : twoTo s = 2 ^ s := rfl
  rw [binadePower, power, ← Nat.pow_add] at least
  rw [binadePower, power, ← Nat.pow_succ', ← Nat.pow_add] at most
  by_cases zero : count = 0
  · rw [zero] at least ⊢
    have positive : 0 < 2 ^ (52 + s) := Nat.pow_pos (by decide)
    rw [Nat.log2_zero]
    omega
  · have upper := (Nat.log2_lt zero).2 most
    rcases least with rfl | least
    · omega
    · have lower := (Nat.le_log2 zero).2 least
      omega

theorem nearestMagnitude_eq {num den s k : Nat} (pos : 0 < den)
    (least : s = 0 ∨ binade * (den * twoTo s) ≤ num * stepsPerOne)
    (most : num * stepsPerOne < 2 * binade * (den * twoTo s))
    (rounded : roundHalfEven (num * stepsPerOne) (den * twoTo s) = k) :
    nearestMagnitude num den = min infinityBits (s * binade + k) := by
  have shift : (num * stepsPerOne / den).log2 - 52 = s := by
    refine shift_eq (least.imp_right fun least => ?_) ?_
    · rw [Nat.le_div_iff_mul_le pos, Nat.mul_assoc, Nat.mul_comm _ den]
      exact least
    · rw [Nat.div_lt_iff_lt_mul pos, Nat.mul_assoc, Nat.mul_comm _ den]
      exact most
  rw [nearestMagnitude, shift, rounded]

section Nearest

variable {bits num den : Nat}

theorem gapsOf_pos (pos : 0 < bits) : 0 < gapsOf bits := by
  rw [gapsOf, binade]
  split <;> omega

theorem magnitude_eq (bits : Nat) : (bits / binade - 1) * binade + gapsOf bits = bits := by
  have parts := Nat.div_add_mod bits binade
  rw [gapsOf]
  rw [binade] at parts ⊢
  split <;> omega

theorem gapsOf_even (bits : Nat) : gapsOf bits % 2 = bits % binade % 2 := by
  rw [gapsOf, binade]
  split <;> omega

/-- Twice the way to the lower edge; below a power of two the doubles lie closer. -/
def lowerGap (bits unit : Nat) : Nat :=
  if bits % binade = 0 ∧ 1 < bits / binade then unit else 2 * unit

theorem lowerGap_mul (bits unit den : Nat) :
    lowerGap bits unit * den = lowerGap bits (den * unit) := by
  rw [lowerGap, lowerGap]
  split
  · exact Nat.mul_comm unit den
  · rw [Nat.mul_assoc, Nat.mul_comm unit]

structure Interval.Bounds (bits num den : Nat) : Prop where
  low : 4 * (gapsOf bits * (den * gapOf bits)) <
      4 * (num * stepsPerOne) + lowerGap bits (den * gapOf bits) ∨
    gapsOf bits % 2 = 0 ∧ 4 * (gapsOf bits * (den * gapOf bits)) =
      4 * (num * stepsPerOne) + lowerGap bits (den * gapOf bits)
  high : 4 * (num * stepsPerOne) <
      4 * (gapsOf bits * (den * gapOf bits)) + 2 * (den * gapOf bits) ∨
    gapsOf bits % 2 = 0 ∧ 4 * (num * stepsPerOne) =
      4 * (gapsOf bits * (den * gapOf bits)) + 2 * (den * gapOf bits)

theorem Interval.Holds.bounds (posDen : 0 < den) (h : (intervalOf bits).Holds num den) :
    Interval.Bounds bits num den := by
  have closed : (intervalOf bits).closed = true ↔ gapsOf bits % 2 = 0 := by
    rw [intervalOf, beq_iff_eq, gapsOf_even]
  have value : 4 * stepsOfMagnitude bits * den = 4 * (gapsOf bits * (den * gapOf bits)) := by
    rw [stepsOfMagnitude_eq]
    ac_rfl
  have point : num * (intervalOf bits).den = 4 * (num * stepsPerOne) := Nat.mul_left_comm ..
  have low : (intervalOf bits).low * den =
      4 * (gapsOf bits * (den * gapOf bits)) - lowerGap bits (den * gapOf bits) := by
    rw [← value, ← lowerGap_mul, ← Nat.sub_mul]
    rfl
  have high : (intervalOf bits).high * den =
      4 * (gapsOf bits * (den * gapOf bits)) + 2 * (den * gapOf bits) := by
    rw [← value, Nat.mul_left_comm 2 den, Nat.mul_comm den, ← Nat.add_mul]
    rfl
  have posUnit : 0 < den * gapOf bits := Nat.mul_pos posDen (gapOf_pos bits)
  have above := h.low
  have beneath := h.high
  rw [Passes, closed, low, point] at above
  rw [Passes, closed, high, point] at beneath
  refine ⟨?_, beneath⟩
  omega

theorem nearestMagnitude_same_gap (posDen : 0 < den) (h : Interval.Bounds bits num den)
    (same : gapsOf bits * (den * gapOf bits) ≤ num * stepsPerOne ∨
      ¬(bits % binade = 0 ∧ 1 < bits / binade)) :
    nearestMagnitude num den = min infinityBits bits := by
  obtain ⟨low, high⟩ := h
  have posUnit : 0 < den * gapOf bits := Nat.mul_pos posDen (gapOf_pos bits)
  have gaps : gapsOf bits + 1 ≤ 2 * binade := gapsOf_lt bits
  have most := Nat.mul_le_mul_right (den * gapOf bits) gaps
  rw [Nat.add_mul, Nat.one_mul] at most
  have least : bits / binade - 1 = 0 ∨ binade * (den * gapOf bits) ≤ num * stepsPerOne := by
    by_cases first : bits / binade ≤ 1
    · exact .inl (by omega)
    refine .inr ?_
    have gaps : gapsOf bits = binade + bits % binade := if_neg (by omega)
    rw [gaps, Nat.add_mul] at low same
    by_cases power : bits % binade = 0
    · have above := same.resolve_right fun other => other ⟨power, by omega⟩
      rwa [power, Nat.zero_mul] at above
    · have whole := Nat.le_mul_of_pos_left (den * gapOf bits) (Nat.pos_of_ne_zero power)
      rw [lowerGap, if_neg fun zero => power zero.1] at low
      omega
  have rounded : roundHalfEven (num * stepsPerOne) (den * gapOf bits) = gapsOf bits := by
    refine roundHalfEven_eq posUnit ?_ (by omega)
    rw [lowerGap] at low
    rcases same with same | same
    · exact .inl (by omega)
    · rw [if_neg same] at low
      omega
  have reach : num * stepsPerOne < 2 * binade * (den * gapOf bits) := by omega
  rw [nearestMagnitude_eq posDen least reach rounded, magnitude_eq]

/-- Below a power of two the gap is half as wide, and what is nearest to the power is rounded up to
it from there. -/
theorem nearestMagnitude_half_gap (posDen : 0 < den) (h : Interval.Bounds bits num den)
    (power : bits % binade = 0) (second : 1 < bits / binade)
    (under : num * stepsPerOne < gapsOf bits * (den * gapOf bits)) :
    nearestMagnitude num den = min infinityBits bits := by
  obtain ⟨low, -⟩ := h
  obtain ⟨s, exponent⟩ : ∃ s, bits / binade = s + 2 := ⟨bits / binade - 2, by omega⟩
  have parts := Nat.div_add_mod bits binade
  have gaps : gapsOf bits = binade := by rw [gapsOf, if_neg (by omega), power, Nat.add_zero]
  have gap : den * gapOf bits = 2 * (den * twoTo s) := by
    rw [gapOf, exponent, Nat.mul_left_comm, ← twoTo_succ]
    rfl
  have posUnit : 0 < den * twoTo s := Nat.mul_pos posDen (twoTo_pos s)
  have twice : 2 * binade * (den * twoTo s) = binade * (2 * (den * twoTo s)) := by ac_rfl
  have total : s * binade + 2 * binade = bits := by
    rw [exponent, power, Nat.add_zero] at parts
    rw [← Nat.add_mul, Nat.mul_comm, parts]
  rw [lowerGap, if_pos ⟨power, second⟩, gaps, gap] at low
  rw [gaps, gap, ← twice] at under
  rw [← twice] at low
  have least : s = 0 ∨ binade * (den * twoTo s) ≤ num * stepsPerOne := by
    have whole : den * twoTo s ≤ binade * (den * twoTo s) := Nat.le_mul_of_pos_left _ (by decide)
    rw [Nat.mul_assoc] at low
    omega
  have rounded : roundHalfEven (num * stepsPerOne) (den * twoTo s) = 2 * binade := by
    have even : 2 * binade % 2 = 0 := Nat.mul_mod_right 2 binade
    refine roundHalfEven_eq posUnit ?_ (.inl (by omega))
    rcases low with low | low
    · exact .inl (by omega)
    · exact (Nat.lt_or_eq_of_le (by omega)).imp_right fun tie => ⟨even, tie⟩
  rw [nearestMagnitude_eq posDen least under rounded, total]

/-- Every fraction in the interval of a double has it as its nearest double. -/
theorem nearestMagnitude_of_holds (finite : bits < infinityBits) (posDen : 0 < den)
    (h : (intervalOf bits).Holds num den) : nearestMagnitude num den = bits := by
  have bounds := h.bounds posDen
  have whole : min infinityBits bits = bits := Nat.min_eq_right (Nat.le_of_lt finite)
  by_cases power : bits % binade = 0 ∧ 1 < bits / binade
  · by_cases under : num * stepsPerOne < gapsOf bits * (den * gapOf bits)
    · rw [nearestMagnitude_half_gap posDen bounds power.1 power.2 under, whole]
    · rw [nearestMagnitude_same_gap posDen bounds (.inl (Nat.not_lt.1 under)), whole]
  · rw [nearestMagnitude_same_gap posDen bounds (.inr power), whole]

end Nearest

end Binary64

end RecordPipeline
