import RecordPipeline.Proofs.Number.Nearest

/-!
The shortest digits of a double lie in its interval. A grid is passed over only while its unit is as
wide as the interval, and with seventeen digits the unit is narrower, so the search ends on a grid.
-/

namespace RecordPipeline.Binary64

namespace Interval

variable {range : Interval}

theorem passes_mul {edge point factor : Nat} (pos : 0 < factor) :
    range.Passes (edge * factor) (point * factor) ↔ range.Passes edge point := by
  rw [Passes, Passes, Nat.mul_lt_mul_right pos, Nat.mul_left_inj (Nat.ne_of_gt pos)]

theorem Holds.cross {num den other factor : Nat} (h : range.Holds num den) (pos : 0 < den)
    (posFactor : 0 < factor) (same : num * factor = other * den) : range.Holds other factor := by
  have point : num * range.den * factor = other * range.den * den := by
    rw [Nat.mul_right_comm, same, Nat.mul_right_comm]
  have low := (passes_mul posFactor).2 h.low
  have high := (passes_mul posFactor).2 h.high
  rw [point, Nat.mul_right_comm, passes_mul pos] at low
  rw [point, Nat.mul_right_comm range.high, passes_mul pos] at high
  exact ⟨low, high⟩

end Interval

namespace Digits

def num (d : Digits) : Nat :=
  d.digits * tenTo d.exponent.toNat

def den (d : Digits) : Nat :=
  tenTo (-d.exponent).toNat

theorem den_pos (d : Digits) : 0 < d.den :=
  tenTo_pos _

theorem tenTo_add (n m : Nat) : tenTo (n + m) = tenTo n * tenTo m :=
  Nat.pow_add 10 n m

theorem num_mul_den_of_zero (digits : Nat) (exponent : Int) :
    (Digits.mk (10 * digits) exponent).num * (Digits.mk digits (exponent + 1)).den =
      (Digits.mk digits (exponent + 1)).num * (Digits.mk (10 * digits) exponent).den := by
  simp only [num, den]
  have tens : 10 * (tenTo exponent.toNat * tenTo (-(exponent + 1)).toNat) =
      tenTo (exponent + 1).toNat * tenTo (-exponent).toNat := by
    rw [← tenTo_add, ← tenTo_succ, ← tenTo_add]
    congr 1
    omega
  rw [Nat.mul_assoc digits, ← tens]
  ac_rfl

theorem trimFrom_holds {range : Interval} (fuel : Nat) {d : Digits} (h : range.Holds d.num d.den) :
    range.Holds (trimFrom fuel d).num (trimFrom fuel d).den := by
  induction fuel generalizing d with
  | zero => exact h
  | succ fuel ih =>
    rw [trimFrom]
    split
    · rename_i zero
      refine ih (h.cross d.den_pos (den_pos _) ?_)
      have whole : 10 * (d.digits / 10) = d.digits := by omega
      have same := num_mul_den_of_zero (d.digits / 10) d.exponent
      rwa [whole] at same
    · exact h

end Digits

namespace Interval

variable {range : Interval}

structure Ordered (range : Interval) : Prop where
  low : range.low ≤ range.value
  high : range.value < range.high
  den : 0 < range.den

/-- The two points of the grid next to the value. -/
structure Between (range : Interval) (place : Int) (below : Nat) : Prop where
  low : below * (range.den * tenTo place.toNat) ≤ range.value * tenTo (-place).toNat
  high : range.value * tenTo (-place).toNat < (below + 1) * (range.den * tenTo place.toNat)

theorem between (ordered : range.Ordered) (place : Int) :
    range.Between place
      (range.value * tenTo (-place).toNat / (range.den * tenTo place.toNat)) := by
  have unit : 0 < range.den * tenTo place.toNat := Nat.mul_pos ordered.den (tenTo_pos _)
  refine ⟨Nat.div_mul_le_self _ _, ?_⟩
  rw [Nat.mul_comm (_ + 1)]
  exact Nat.lt_mul_div_succ _ unit

theorem num_mul_den (digits : Nat) (place : Int) :
    (Digits.mk digits place).num * range.den = digits * (range.den * tenTo place.toNat) := by
  rw [Digits.num]
  ac_rfl

theorem passes_iff {edge point : Nat} :
    (decide (edge < point) || (range.closed && edge == point)) = true ↔
      range.Passes edge point := by
  simp [Passes]

theorem onGrid_holds (ordered : range.Ordered) {place : Int} {digits : Nat}
    (h : range.onGrid place = some digits) :
    range.Holds (Digits.mk digits place).num (Digits.mk digits place).den := by
  obtain ⟨under, above⟩ := between ordered place
  have up : 0 < tenTo (-place).toNat := tenTo_pos _
  have low := Nat.mul_le_mul_right (tenTo (-place).toNat) ordered.low
  have high := Nat.mul_lt_mul_of_pos_right ordered.high up
  rw [onGrid] at h
  dsimp only at h
  generalize range.value * tenTo (-place).toNat / (range.den * tenTo place.toNat) = below
    at under above h
  have lower (inside : range.Passes (range.low * tenTo (-place).toNat)
      (below * (range.den * tenTo place.toNat))) :
      range.Holds (Digits.mk below place).num (Digits.mk below place).den := by
    refine ⟨?_, .inl ?_⟩
    · rw [num_mul_den]
      exact inside
    · rw [num_mul_den]
      exact Nat.lt_of_le_of_lt under high
  have upper (inside : range.Passes ((below + 1) * (range.den * tenTo place.toNat))
      (range.high * tenTo (-place).toNat)) :
      range.Holds (Digits.mk (below + 1) place).num (Digits.mk (below + 1) place).den := by
    refine ⟨.inl ?_, ?_⟩
    · rw [num_mul_den]
      exact Nat.lt_of_le_of_lt low above
    · rw [num_mul_den]
      exact inside
  split at h
  · rename_i both
    rw [Bool.and_eq_true, passes_iff, passes_iff] at both
    split at h
    · cases h
      exact lower both.1
    · cases h
      exact upper both.2
  · split at h
    · rename_i inside
      cases h
      exact lower (passes_iff.1 inside)
    · split at h
      · rename_i inside
        cases h
        exact upper (passes_iff.1 inside)
      · cases h

theorem onGrid_isSome {place : Int}
    (narrow : range.low * tenTo (-place).toNat + range.den * tenTo place.toNat <
      range.high * tenTo (-place).toNat) : (range.onGrid place).isSome := by
  rw [onGrid]
  dsimp only
  split
  · split <;> rfl
  · split
    · rfl
    · split
      · rfl
      · rename_i notLower notUpper
        rw [passes_iff] at notLower notUpper
        generalize range.value * tenTo (-place).toNat / (range.den * tenTo place.toNat) = below
          at notLower notUpper
        have under : ¬range.low * tenTo (-place).toNat < below * (range.den * tenTo place.toNat) :=
          fun past => notLower (.inl past)
        have above : ¬(below + 1) * (range.den * tenTo place.toNat) <
            range.high * tenTo (-place).toNat := fun past => notUpper (.inl past)
        rw [Nat.add_mul, Nat.one_mul] at above
        omega

theorem shortestFrom_holds (ordered : range.Ordered) (top : Int) {tries count : Nat}
    (some : 0 < tries) (last : (range.onGrid (top - (count + tries - 1 : Nat))).isSome) :
    range.Holds (range.shortestFrom top tries count).num
      (range.shortestFrom top tries count).den := by
  induction tries generalizing count with
  | zero => omega
  | succ tries ih =>
    rw [shortestFrom]
    split
    · exact onGrid_holds ordered ‹_›
    · rename_i none
      cases tries with
      | zero =>
        rw [Nat.zero_add, Nat.add_sub_cancel, none] at last
        cases last
      | succ tries =>
        refine ih (by omega) ?_
        rwa [show count + 1 + (tries + 1) - 1 = count + (tries + 1 + 1) - 1 by omega]

end Interval

theorem lt_tenTo_length (n : Nat) : n < tenTo (Nat.toDigits 10 n).length :=
  (Nat.length_toDigits_le_iff (by decide) Nat.length_toDigits_pos).1 (Nat.le_refl _)

theorem tenTo_length_le {n : Nat} (pos : 0 < n) :
    tenTo ((Nat.toDigits 10 n).length - 1) ≤ n := by
  by_cases one : (Nat.toDigits 10 n).length - 1 = 0
  · rw [one, tenTo_zero]
    exact pos
  · refine Nat.not_lt.1 fun less => ?_
    have short := (Nat.length_toDigits_le_iff (by decide) (Nat.pos_of_ne_zero one)).2 less
    omega

theorem leadingPlace_le {num den : Nat} (pos : 0 < num) (posDen : 0 < den) :
    den * tenTo (leadingPlace num den - 1).toNat ≤
      num * tenTo (-(leadingPlace num den - 1)).toNat := by
  rw [leadingPlace]
  split
  · rename_i large
    have whole := tenTo_length_le (Nat.div_pos large posDen)
    have length : 0 < (Nat.toDigits 10 (num / den)).length := Nat.length_toDigits_pos
    generalize (Nat.toDigits 10 (num / den)).length = count at whole length ⊢
    rw [show ((count : Int) - 1).toNat = count - 1 by omega,
      show (-((count : Int) - 1)).toNat = 0 by omega, tenTo_zero, Nat.mul_one, Nat.mul_comm]
    exact (Nat.le_div_iff_mul_le posDen).1 whole
  · have below := lt_tenTo_length ((den - 1) / num)
    generalize (Nat.toDigits 10 ((den - 1) / num)).length = count at below ⊢
    rw [Nat.div_lt_iff_lt_mul pos, Nat.mul_comm] at below
    rw [show (1 - (count : Int) - 1).toNat = 0 by omega,
      show (-(1 - (count : Int) - 1)).toNat = count by omega, tenTo_zero, Nat.mul_one]
    omega

theorem tenTo_mul_unit_le {num den : Nat} {place : Int}
    (h : den * tenTo place.toNat ≤ num * tenTo (-place).toNat) (more : Nat) :
    tenTo more * (den * tenTo (place - more).toNat) ≤ num * tenTo (-(place - more)).toNat := by
  have shift : tenTo more * tenTo (place - more).toNat * tenTo (-place).toNat =
      tenTo place.toNat * tenTo (-(place - more)).toNat := by
    rw [← Digits.tenTo_add, ← Digits.tenTo_add, ← Digits.tenTo_add]
    congr 1
    omega
  refine Nat.le_of_mul_le_mul_right ?_ (tenTo_pos (-place).toNat)
  calc tenTo more * (den * tenTo (place - more).toNat) * tenTo (-place).toNat
      = den * (tenTo more * tenTo (place - more).toNat * tenTo (-place).toNat) := by ac_rfl
    _ = den * tenTo place.toNat * tenTo (-(place - more)).toNat := by rw [shift, Nat.mul_assoc]
    _ ≤ num * tenTo (-place).toNat * tenTo (-(place - more)).toNat := Nat.mul_le_mul_right _ h
    _ = num * tenTo (-(place - more)).toNat * tenTo (-place).toNat := Nat.mul_right_comm ..

section Shortest

variable {bits : Nat}

theorem value_intervalOf (bits : Nat) :
    (intervalOf bits).value = 4 * (gapsOf bits * gapOf bits) :=
  congrArg (4 * ·) (stepsOfMagnitude_eq bits)

theorem low_intervalOf (bits : Nat) :
    (intervalOf bits).low = 4 * (gapsOf bits * gapOf bits) - lowerGap bits (gapOf bits) :=
  congrArg (· - lowerGap bits (gapOf bits)) (value_intervalOf bits)

theorem high_intervalOf (bits : Nat) :
    (intervalOf bits).high = 4 * (gapsOf bits * gapOf bits) + 2 * gapOf bits :=
  congrArg (· + 2 * gapOf bits) (value_intervalOf bits)

theorem ordered_intervalOf (bits : Nat) : (intervalOf bits).Ordered := by
  refine ⟨Nat.sub_le _ _, ?_, Nat.mul_pos (by decide) stepsPerOne_pos⟩
  have gap := gapOf_pos bits
  rw [value_intervalOf, high_intervalOf]
  omega

/-- The interval is wider than a unit of which `10 ^ 16` go into the value. -/
theorem wide_intervalOf (pos : 0 < bits) :
    tenTo 16 * (intervalOf bits).low + (intervalOf bits).value <
      tenTo 16 * (intervalOf bits).high := by
  have gap := gapOf_pos bits
  have least := Nat.le_mul_of_pos_left (gapOf bits) (gapsOf_pos pos)
  have ten : tenTo 16 = 10000000000000000 := rfl
  rw [low_intervalOf, high_intervalOf, value_intervalOf, lowerGap, ten]
  split
  · rename_i power
    have gaps : gapsOf bits = 0x10000000000000 := by
      rw [gapsOf, if_neg (by omega), power.1]
      rfl
    rw [gaps]
    omega
  · have gaps : gapsOf bits < 0x20000000000000 := gapsOf_lt bits
    have most := Nat.mul_le_mul_right (gapOf bits) (Nat.le_of_lt gaps)
    omega

theorem Interval.narrow_of_wide {range : Interval} {up unit : Nat} (pos : 0 < up)
    (wide : tenTo 16 * range.low + range.value < tenTo 16 * range.high)
    (units : tenTo 16 * unit ≤ range.value * up) : range.low * up + unit < range.high * up := by
  refine Nat.lt_of_mul_lt_mul_left (a := tenTo 16) ?_
  calc tenTo 16 * (range.low * up + unit)
      = tenTo 16 * range.low * up + tenTo 16 * unit := by rw [Nat.mul_add, Nat.mul_assoc]
    _ ≤ tenTo 16 * range.low * up + range.value * up := Nat.add_le_add_left units _
    _ = (tenTo 16 * range.low + range.value) * up := (Nat.add_mul ..).symm
    _ < tenTo 16 * range.high * up := Nat.mul_lt_mul_of_pos_right wide pos
    _ = tenTo 16 * (range.high * up) := Nat.mul_assoc ..

/-- The shortest digits of a double lie in its interval. -/
theorem shortest_holds {x : Float} (same : magnitude x = bits) (pos : 0 < bits) :
    (intervalOf bits).Holds (shortest x).num (shortest x).den := by
  have ordered := ordered_intervalOf bits
  have value : 0 < (intervalOf bits).value := by
    rw [value_intervalOf]
    exact Nat.mul_pos (by decide) (Nat.mul_pos (gapsOf_pos pos) (gapOf_pos bits))
  have units := tenTo_mul_unit_le (leadingPlace_le value ordered.den) 16
  rw [Int.sub_sub] at units
  rw [shortest, same]
  refine Digits.trimFrom_holds _ (Interval.shortestFrom_holds ordered _ (by decide) ?_)
  exact Interval.onGrid_isSome (Interval.narrow_of_wide (tenTo_pos _) (wide_intervalOf pos) units)

end Shortest

end RecordPipeline.Binary64
