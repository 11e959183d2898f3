import RecordPipeline.Proofs.Number.Decimals
import RecordPipeline.Proofs.Number.Products

/-!
Doubles that are too small for a decimal. A decimal has 28 places, and what is dropped behind them is
rounded up digit by digit, so a double vanishes if it is less than 17/18 of a unit in the last place,
and any other one keeps some digits.
-/

namespace RecordPipeline.Decimal

open Binary64 (steps magnitude isFinite isNegative stepsPerOne binade gapsOf infinityBits)

/-- Less than 17/18 of a unit in the last place of a decimal. -/
def Vanishes (x : Float) : Prop :=
  18 * tenTo 28 * (steps x).natAbs < 17 * stepsPerOne

instance (x : Float) : Decidable (Vanishes x) :=
  inferInstanceAs (Decidable (_ < _))

theorem tenTo_eq (n : Nat) : tenTo n = twoTo n * 5 ^ n :=
  Nat.mul_pow 2 5 n

/-- What is left of a mantissa when it has been halved so often and multiplied by five for the other
factors of two. Only a mantissa without room for another factor is cut, and by less than it is
large. -/
structure Paid (count mantissa : Nat) (exponent : Int) (paid : Nat × Int) (halved : Nat) : Prop where
  exponent : paid.2 = exponent + halved
  le : paid.1 * tenTo halved ≤ mantissa * 5 ^ count
  near : mantissa * 5 ^ count * capacity ≤
    paid.1 * tenTo halved * capacity + 5 * count * (mantissa * 5 ^ count)
  filled : mantissa ≠ 0 → paid.1 ≠ 0

namespace Paid

variable {count mantissa halved : Nat} {exponent : Int} {paid : Nat × Int}

theorem power (count mantissa : Nat) : mantissa * 5 ^ (count + 1) = 5 * mantissa * 5 ^ count := by
  ring

theorem multiplied (h : Paid count (5 * mantissa) exponent paid halved) :
    Paid (count + 1) mantissa exponent paid halved := by
  refine ⟨h.exponent, ?_, ?_, fun some => h.filled (by omega)⟩
  · rw [power]
    exact h.le
  · rw [power]
    refine Nat.le_trans h.near (Nat.add_le_add_left (Nat.mul_le_mul_right _ ?_) _)
    omega

theorem halves (h : Paid count (mantissa / 2) (exponent + 1) paid halved)
    (full : mantissa % 2 = 1 → capacity ≤ 5 * mantissa) :
    Paid (count + 1) mantissa exponent paid (halved + 1) := by
  have split := Nat.div_add_mod mantissa 2
  have twice : 10 * (mantissa / 2) ≤ 5 * mantissa := by omega
  have cut : 5 * mantissa * capacity ≤ 10 * (mantissa / 2) * capacity + 25 * mantissa := by
    rw [capacity] at full ⊢
    omega
  have le := h.le
  have near := h.near
  refine ⟨?_, ?_, ?_, fun some => h.filled ?_⟩
  · rw [h.exponent]
    omega
  · rw [tenTo_succ, power, Nat.mul_left_comm]
    calc 10 * (paid.1 * tenTo halved)
        ≤ 10 * (mantissa / 2 * 5 ^ count) := Nat.mul_le_mul_left 10 le
      _ = 10 * (mantissa / 2) * 5 ^ count := (Nat.mul_assoc ..).symm
      _ ≤ 5 * mantissa * 5 ^ count := Nat.mul_le_mul_right _ twice
  · rw [tenTo_succ, power]
    calc 5 * mantissa * 5 ^ count * capacity
        = 5 * mantissa * capacity * 5 ^ count := Nat.mul_right_comm ..
      _ ≤ (10 * (mantissa / 2) * capacity + 25 * mantissa) * 5 ^ count :=
        Nat.mul_le_mul_right _ cut
      _ = 10 * (mantissa / 2 * 5 ^ count * capacity) + 5 * (5 * mantissa * 5 ^ count) := by ring
      _ ≤ 10 * (paid.1 * tenTo halved * capacity + 5 * count * (mantissa / 2 * 5 ^ count)) +
          5 * (5 * mantissa * 5 ^ count) := by gcongr
      _ = paid.1 * (10 * tenTo halved) * capacity +
          5 * count * (10 * (mantissa / 2) * 5 ^ count) + 5 * (5 * mantissa * 5 ^ count) := by ring
      _ ≤ paid.1 * (10 * tenTo halved) * capacity +
          5 * count * (5 * mantissa * 5 ^ count) + 5 * (5 * mantissa * 5 ^ count) := by gcongr
      _ = paid.1 * (10 * tenTo halved) * capacity +
          5 * (count + 1) * (5 * mantissa * 5 ^ count) := by ring
  · rw [capacity] at full
    omega

end Paid

theorem payHalves_paid (count mantissa : Nat) (exponent : Int) :
    ∃ halved, Paid count mantissa exponent (payHalves count mantissa exponent) halved := by
  induction count generalizing mantissa exponent with
  | zero => exact ⟨0, by simp [payHalves], by simp [payHalves], by simp [payHalves], fun h => h⟩
  | succ count ih =>
    rw [payHalves]
    split
    · obtain ⟨halved, paid⟩ := ih (5 * mantissa) exponent
      exact ⟨halved, paid.multiplied⟩
    · rename_i full
      obtain ⟨halved, paid⟩ := ih (mantissa / 2) (exponent + 1)
      exact ⟨halved + 1, paid.halves fun odd => Nat.not_lt.1 fun room => full ⟨odd, room⟩⟩

theorem dropDigit_eq (mantissa : Nat) : dropDigit mantissa = (mantissa + 5) / 10 := by
  rw [dropDigit, roundHalfUp]
  split <;> omega

theorem tenTo_succ_mod (n : Nat) : ∃ t, tenTo (n + 1) = 18 * t + 10 := by
  induction n with
  | zero => exact ⟨0, rfl⟩
  | succ n ih =>
    obtain ⟨t, power⟩ := ih
    exact ⟨10 * t + 5, by rw [tenTo_succ, power]; omega⟩

/-- Nothing is left of 9, and a digit is rounded up from 5 on: of 94 nothing is left, nor of 944, but 95,
945 and so on give 10. -/
theorem dropPlaces_eq_zero_iff (count mantissa : Nat) (exponent : Int) :
    (dropPlaces (count + 1) mantissa exponent).1 = 0 ↔ 18 * mantissa < 17 * tenTo (count + 1) := by
  induction count generalizing mantissa exponent with
  | zero =>
    have ten : tenTo (0 + 1) = 10 := rfl
    rw [dropPlaces, ten]
    split
    · exact ⟨fun _ => by omega, fun _ => rfl⟩
    · rw [dropPlaces, dropDigit_eq]
      omega
  | succ count ih =>
    obtain ⟨t, power⟩ := tenTo_succ_mod count
    rw [dropPlaces, tenTo_succ, power]
    split
    · exact ⟨fun _ => by omega, fun _ => rfl⟩
    · rw [ih, dropDigit_eq, power]
      omega

theorem dropNoise_filled {mantissa : Nat} (filled : mantissa ≠ 0) (scale : Nat) :
    (dropNoise scale mantissa).1 ≠ 0 := by
  induction scale generalizing mantissa with
  | zero => exact filled
  | succ scale ih =>
    rw [dropNoise]
    split
    · refine ih ?_
      rw [dropDigit_eq]
      rw [binade] at *
      omega
    · exact filled

theorem dropZeros_filled {mantissa : Nat} (filled : mantissa ≠ 0) (scale : Nat) :
    (dropZeros scale mantissa).1 ≠ 0 := by
  induction scale generalizing mantissa with
  | zero => exact filled
  | succ scale ih =>
    rw [dropZeros]
    split
    · exact ih (by omega)
    · exact filled

theorem dropNoise_zero (scale : Nat) : (dropNoise scale 0).1 = 0 := by
  cases scale <;> rfl

theorem dropZeros_zero (scale : Nat) : dropZeros scale 0 = (0, 0) := by
  induction scale with
  | zero => rfl
  | succ scale ih => exact ih

theorem dropZeros_of_zero {mantissa scale : Nat} (none : (dropZeros scale mantissa).1 = 0) :
    dropZeros scale mantissa = (0, 0) := by
  by_cases filled : mantissa = 0
  · rw [filled, dropZeros_zero]
  · exact absurd none (dropZeros_filled filled scale)

/-- The digits of a double below `binade`, with the places that they stand behind. -/
def digitsOf (count mantissa : Nat) : Nat × Nat :=
  let paid := payHalves count mantissa (-count)
  let dropped := dropPlaces (-28 - paid.2).toNat paid.1 paid.2
  let clear := dropNoise (-dropped.2).toNat dropped.1
  dropZeros clear.2 clear.1

theorem ofFloat?_eq {x : Float} {count : Nat} (finite : isFinite x = true)
    (pos : 0 < magnitude x) (places : count + (magnitude x / binade - 1) = 1074)
    (some : 0 < count) :
    ofFloat? x = make? (isNegative x && (digitsOf count (gapsOf (magnitude x))).1 != 0)
      (digitsOf count (gapsOf (magnitude x))).1 (digitsOf count (gapsOf (magnitude x))).2 := by
  have exponent : ((max (magnitude x / binade) 1 : Nat) : Int) - 1075 = -count := by omega
  have below : ¬(0 : Int) ≤ -count := by omega
  rw [ofFloat?]
  simp only [finite, Bool.not_true, Bool.false_eq_true, if_false, if_neg (Nat.ne_of_gt pos), exponent,
    if_neg below, Int.neg_neg, Int.toNat_natCast]
  rfl

section Threshold

variable {count mantissa kept halved dropped : Nat}

theorem digits_vanish (small : 18 * tenTo 28 * mantissa < 17 * twoTo count)
    (le : kept * tenTo halved ≤ mantissa * 5 ^ count) (places : halved + 28 + dropped = count) :
    18 * kept < 17 * tenTo dropped := by
  have positive : 0 < 5 ^ count := Nat.pow_pos (by decide)
  have unit : 0 < tenTo halved * tenTo 28 := Nat.mul_pos (tenTo_pos _) (tenTo_pos _)
  refine Nat.lt_of_mul_lt_mul_right (a := tenTo halved * tenTo 28) ?_
  calc 18 * kept * (tenTo halved * tenTo 28)
      = 18 * tenTo 28 * (kept * tenTo halved) := by ring
    _ ≤ 18 * tenTo 28 * (mantissa * 5 ^ count) := Nat.mul_le_mul_left _ le
    _ = 18 * tenTo 28 * mantissa * 5 ^ count := (Nat.mul_assoc ..).symm
    _ < 17 * twoTo count * 5 ^ count := Nat.mul_lt_mul_of_pos_right small positive
    _ = 17 * tenTo count := by rw [tenTo_eq count, Nat.mul_assoc]
    _ = 17 * tenTo dropped * (tenTo halved * tenTo 28) := by
      rw [← places, Binary64.Digits.tenTo_add, Binary64.Digits.tenTo_add]
      ring

theorem digits_stay
    (large : 17 * twoTo count * capacity ≤ 18 * tenTo 28 * mantissa * (capacity - 5 * count))
    (near : mantissa * 5 ^ count * capacity ≤
      kept * tenTo halved * capacity + 5 * count * (mantissa * 5 ^ count))
    (places : halved + 28 + dropped = count) : 17 * tenTo dropped ≤ 18 * kept := by
  have room : 0 < capacity := by decide
  have rest : mantissa * 5 ^ count * (capacity - 5 * count) ≤ kept * tenTo halved * capacity := by
    rw [Nat.mul_sub, Nat.mul_comm (mantissa * 5 ^ count) (5 * count)]
    omega
  refine Nat.le_of_mul_le_mul_right (c := tenTo halved * tenTo 28 * capacity) ?_
    (Nat.mul_pos (Nat.mul_pos (tenTo_pos _) (tenTo_pos _)) room)
  calc 17 * tenTo dropped * (tenTo halved * tenTo 28 * capacity)
      = 17 * tenTo count * capacity := by
        rw [← places, Binary64.Digits.tenTo_add, Binary64.Digits.tenTo_add]
        ring
    _ = 17 * twoTo count * capacity * 5 ^ count := by
        rw [tenTo_eq count]
        ring
    _ ≤ 18 * tenTo 28 * mantissa * (capacity - 5 * count) * 5 ^ count :=
        Nat.mul_le_mul_right _ large
    _ = 18 * tenTo 28 * (mantissa * 5 ^ count * (capacity - 5 * count)) := by ring
    _ ≤ 18 * tenTo 28 * (kept * tenTo halved * capacity) := Nat.mul_le_mul_left _ rest
    _ = 18 * kept * (tenTo halved * tenTo 28 * capacity) := by ring

theorem digits_fit (le : kept * tenTo halved ≤ mantissa * 5 ^ count) (filled : kept ≠ 0)
    (places : count ≤ halved + 28) : 17 * twoTo count ≤ 18 * tenTo 28 * mantissa := by
  have positive : 0 < 5 ^ count := Nat.pow_pos (by decide)
  have whole : twoTo count ≤ tenTo 28 * mantissa := by
    refine Nat.le_of_mul_le_mul_right (c := 5 ^ count) ?_ positive
    calc twoTo count * 5 ^ count
        = tenTo count := (tenTo_eq count).symm
      _ ≤ tenTo (halved + 28) := tenTo_le_tenTo places
      _ = tenTo 28 * (1 * tenTo halved) := by rw [Binary64.Digits.tenTo_add, Nat.one_mul, Nat.mul_comm]
      _ ≤ tenTo 28 * (kept * tenTo halved) :=
        Nat.mul_le_mul_left _ (Nat.mul_le_mul_right _ (Nat.pos_of_ne_zero filled))
      _ ≤ tenTo 28 * (mantissa * 5 ^ count) := Nat.mul_le_mul_left _ le
      _ = tenTo 28 * mantissa * 5 ^ count := (Nat.mul_assoc ..).symm
  have unit : 18 * tenTo 28 * mantissa = 18 * (tenTo 28 * mantissa) := Nat.mul_assoc ..
  omega

theorem threshold_gap (most : mantissa < 2 * binade) (normal : count = 1074 ∨ binade ≤ mantissa)
    (large : 17 * twoTo count ≤ 18 * tenTo 28 * mantissa) :
    17 * twoTo count * capacity ≤ 18 * tenTo 28 * mantissa * (capacity - 5 * count) := by
  have digits : tenTo 28 = 10000000000000000000000000000 := rfl
  rw [digits] at large ⊢
  rw [binade] at most normal
  rcases Nat.lt_trichotomy count 146 with below | rfl | above
  · have power : twoTo count ≤ twoTo 145 := twoTo_le_twoTo (by omega)
    have literal : twoTo 145 = 44601490397061246283071436545296723011960832 := rfl
    rw [literal] at power
    rw [capacity]
    calc 17 * twoTo count * 0x1000000000000000000000000
        ≤ 18 * 10000000000000000000000000000 * 0x10000000000000 *
            (0x1000000000000000000000000 - 5 * 145) := by omega
      _ ≤ _ := Nat.mul_le_mul (Nat.mul_le_mul_left _ (by omega)) (by omega)
  · have literal : twoTo 146 = 89202980794122492566142873090593446023921664 := rfl
    rw [literal] at large ⊢
    rw [capacity]
    omega
  · have power : twoTo 147 ≤ twoTo count := twoTo_le_twoTo above
    have literal : twoTo 147 = 178405961588244985132285746181186892047843328 := rfl
    rw [literal] at power
    omega

/-- The digits of a double are gone if and only if it is below the threshold. -/
theorem digitsOf_eq_zero_iff (some : mantissa ≠ 0) (most : mantissa < 2 * binade)
    (normal : count = 1074 ∨ binade ≤ mantissa) :
    (digitsOf count mantissa).1 = 0 ↔ 18 * tenTo 28 * mantissa < 17 * twoTo count := by
  obtain ⟨halved, paid⟩ := payHalves_paid count mantissa (-count)
  simp only [digitsOf]
  generalize payHalves count mantissa (-count) = result at paid ⊢
  have filled := paid.filled some
  by_cases room : count ≤ halved + 28
  · have none : (-28 - result.2).toNat = 0 := by
      rw [paid.exponent]
      omega
    have reached := digits_fit paid.le filled room
    rw [none, dropPlaces]
    refine iff_of_false ?_ (Nat.not_lt.2 reached)
    exact dropZeros_filled (dropNoise_filled filled _) _
  · obtain ⟨dropped, places⟩ : ∃ dropped, halved + 28 + (dropped + 1) = count :=
      ⟨count - (halved + 28) - 1, by omega⟩
    have amount : (-28 - result.2).toNat = dropped + 1 := by
      rw [paid.exponent]
      omega
    rw [amount]
    have gone := dropPlaces_eq_zero_iff dropped result.1 result.2
    generalize dropPlaces (dropped + 1) result.1 result.2 = rest at gone ⊢
    by_cases small : 18 * tenTo 28 * mantissa < 17 * twoTo count
    · refine iff_of_true ?_ small
      rw [gone.2 (digits_vanish small paid.le places), dropNoise_zero, dropZeros_zero]
    · have stays := digits_stay (threshold_gap most normal (Nat.not_lt.1 small)) paid.near places
      refine iff_of_false ?_ small
      exact dropZeros_filled (dropNoise_filled (mt gone.1 (Nat.not_lt.2 stays)) _) _

end Threshold

variable {x : Float} {d : Decimal}

theorem vanishes_iff {count : Nat} (places : count + (magnitude x / binade - 1) = 1074) :
    Vanishes x ↔ 18 * tenTo 28 * gapsOf (magnitude x) < 17 * twoTo count := by
  have unit : stepsPerOne = twoTo count * twoTo (magnitude x / binade - 1) := by
    rw [stepsPerOne, ← twoTo_add, places]
  rw [Vanishes, Binary64.natAbs_steps_eq, unit, ← Nat.mul_assoc, ← Nat.mul_assoc,
    Nat.mul_lt_mul_right (twoTo_pos _)]

theorem not_vanishes_of_large (large : 1075 ≤ magnitude x / binade) : ¬Vanishes x := by
  have gaps := Binary64.binade_le_gapsOf (Nat.lt_of_lt_of_le (by decide) large)
  have one : 1 ≤ gapsOf (magnitude x) := Nat.le_trans (by decide) gaps
  have power : stepsPerOne ≤ twoTo (magnitude x / binade - 1) := by
    rw [stepsPerOne]
    exact twoTo_le_twoTo (by omega)
  have steps : stepsPerOne ≤ (steps x).natAbs := by
    rw [Binary64.natAbs_steps_eq]
    exact Nat.le_trans power (Nat.le_mul_of_pos_left _ one)
  have unit : 1 ≤ tenTo 28 := tenTo_pos 28
  rw [Vanishes, Nat.not_lt]
  exact Nat.mul_le_mul (by omega) steps

theorem ofFloat?_of_large (finite : isFinite x = true) (pos : 0 < magnitude x)
    (large : 1075 ≤ magnitude x / binade) :
    ofFloat? x = make? (isNegative x)
      (gapsOf (magnitude x) * twoTo (magnitude x / binade - 1075)) 0 := by
  have exponent : ((max (magnitude x / binade) 1 : Nat) : Int) - 1075 =
      (magnitude x / binade - 1075 : Nat) := by omega
  rw [ofFloat?]
  simp only [finite, Bool.not_true, Bool.false_eq_true, if_false, if_neg (Nat.ne_of_gt pos),
    exponent, Int.natCast_nonneg, if_true, Int.toNat_natCast]
  rfl

theorem ofFloat?_digits (finite : isFinite x = true) (pos : 0 < magnitude x) :
    ∃ digits, ofFloat? x = make? (isNegative x && digits.1 != 0) digits.1 digits.2 ∧
      (digits.1 = 0 ↔ Vanishes x) ∧ (digits.1 = 0 → digits = (0, 0)) := by
  by_cases large : 1075 ≤ magnitude x / binade
  · have filled : gapsOf (magnitude x) * twoTo (magnitude x / binade - 1075) ≠ 0 :=
      Nat.ne_of_gt (Nat.mul_pos (Binary64.gapsOf_pos pos) (twoTo_pos _))
    refine ⟨(gapsOf (magnitude x) * twoTo (magnitude x / binade - 1075), 0), ?_,
      iff_of_false filled (not_vanishes_of_large large), fun none => absurd none filled⟩
    rw [bne_iff_ne.2 filled, Bool.and_true, ofFloat?_of_large finite pos large]
  · obtain ⟨count, some, places⟩ : ∃ count, 0 < count ∧ count + (magnitude x / binade - 1) = 1074 :=
      ⟨1074 - (magnitude x / binade - 1), by omega, by omega⟩
    have normal : count = 1074 ∨ binade ≤ gapsOf (magnitude x) := by
      by_cases field : 0 < magnitude x / binade
      · exact .inr (Binary64.binade_le_gapsOf field)
      · exact .inl (by omega)
    refine ⟨digitsOf count (gapsOf (magnitude x)), ofFloat?_eq finite pos places some, ?_,
      dropZeros_of_zero⟩
    rw [vanishes_iff places]
    exact digitsOf_eq_zero_iff (Nat.ne_of_gt (Binary64.gapsOf_pos pos))
      (Binary64.gapsOf_lt (magnitude x)) normal

theorem ofFloat?_of_vanishes (finite : isFinite x = true) (nonzero : steps x ≠ 0)
    (vanishes : Vanishes x) : ∃ d, ofFloat? x = some d ∧ d.mantissa = 0 := by
  obtain ⟨digits, value, gone, none⟩ := ofFloat?_digits finite
    (Nat.pos_of_ne_zero (mt Binary64.steps_eq_zero_iff.2 nonzero))
  rw [value, none (gone.2 vanishes)]
  exact ⟨_, rfl, rfl⟩

theorem sign_ofFloat?_of_not_vanishes (finite : isFinite x = true) (nonzero : steps x ≠ 0)
    (stays : ¬Vanishes x) (h : ofFloat? x = some d) :
    d.mantissa ≠ 0 ∧ d.sign = (steps x).sign := by
  obtain ⟨digits, value, gone, -⟩ := ofFloat?_digits finite
    (Nat.pos_of_ne_zero (mt Binary64.steps_eq_zero_iff.2 nonzero))
  have filled : d.mantissa ≠ 0 := by
    rw [value, make?] at h
    split at h
    · cases h
      exact mt gone.1 stays
    · cases h
  refine ⟨filled, (sign_of_ofFloat? h).resolve_left ?_⟩
  rw [sign, if_neg filled]
  split <;> decide

end RecordPipeline.Decimal
