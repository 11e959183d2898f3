import RecordPipeline.Proofs.Number.DecimalLaws
import RecordPipeline.Proofs.Number.Doubles
import RecordPipeline.Proofs.Number.Vanishing
import Mathlib.Tactic.FieldSimp

/-!
Decimals with a mantissa of 96 bits are a library of decimals. A product gives up as many places as
there are too many or as its mantissa has no room for; as many as that leave something of any number
that is no smaller than a unit in the last place.
-/

namespace RecordPipeline.Decimal

open Binary64 (steps isFinite magnitude binade gapsOf stepsPerOne)
open DecimalLibrary (unit greatest Rounded)

def value (d : Decimal) : ℚ :=
  d.sign * (d.mantissa / tenTo d.scale)

variable {a b d : Decimal}

theorem tenTo_cast_pos (n : Nat) : (0 : ℚ) < tenTo n :=
  Nat.cast_pos.2 (tenTo_pos n)

theorem sign_natAbs (filled : d.mantissa ≠ 0) : d.sign.natAbs = 1 := by
  rw [sign, if_neg filled]
  split <;> rfl

theorem sign_eq_zero_iff : d.sign = 0 ↔ d.mantissa = 0 := by
  rw [sign]
  split
  · simp [*]
  · split <;> simp [*]

theorem abs_value (d : Decimal) : |d.value| = d.mantissa / tenTo d.scale := by
  have nonneg : (0 : ℚ) ≤ d.mantissa / tenTo d.scale := by positivity
  rw [value, abs_mul, abs_of_nonneg nonneg]
  by_cases filled : d.mantissa = 0
  · rw [filled, Nat.cast_zero, zero_div, mul_zero]
  · rw [← Int.cast_abs, Int.abs_eq_natAbs, sign_natAbs filled]
    norm_num

theorem value_eq_zero_iff : d.value = 0 ↔ d.mantissa = 0 := by
  rw [← abs_eq_zero, abs_value, div_eq_zero_iff, Nat.cast_eq_zero]
  exact or_iff_left (tenTo_cast_pos _).ne'

theorem sign_value (d : Decimal) : (SignType.sign d.value : ℤ) = d.sign := by
  by_cases empty : d.mantissa = 0
  · rw [value_eq_zero_iff.2 empty, sign_zero, sign_eq_zero_iff.2 empty]
    rfl
  · have size : (0 : ℚ) < d.mantissa / tenTo d.scale :=
      div_pos (Nat.cast_pos.2 (Nat.pos_of_ne_zero empty)) (tenTo_cast_pos _)
    rw [value, sign_mul, sign_pos size, mul_one, sign, if_neg empty]
    split <;> simp

theorem unit_eq : unit = 1 / tenTo 28 := by
  norm_num [unit, tenTo]

theorem places_value (d : Decimal) : ∃ m : ℤ, d.value = m * unit := by
  refine ⟨d.sign * (d.mantissa * tenTo (28 - d.scale)), ?_⟩
  have split : (tenTo 28 : ℚ) = tenTo d.scale * tenTo (28 - d.scale) := by
    rw [← Nat.cast_mul, ← Binary64.Digits.tenTo_add, Nat.add_sub_cancel' d.scale_le]
  have positive := tenTo_cast_pos d.scale
  have positive' := tenTo_cast_pos (28 - d.scale)
  rw [value, unit_eq, split]
  push_cast
  field_simp

theorem ofInt64_value (n : Int64) : ∃ d, ofInt64 n = some d ∧ d.value = n.toInt := by
  have least := n.le_toInt
  have most := n.toInt_lt
  have room : n.toInt.natAbs < capacity ∧ 0 ≤ 28 := by
    rw [capacity]
    omega
  refine ⟨_, dif_pos room, ?_⟩
  have negative : decide (n < 0) = decide (n.toInt < 0) :=
    decide_eq_decide.2 Int64.lt_iff_toInt_lt
  have signs : sign ⟨decide (n < 0), n.toInt.natAbs, 0, room.1, room.2⟩ = n.toInt.sign := by
    rw [sign]
    dsimp only
    rw [negative]
    split
    · rename_i zero
      rw [Int.natAbs_eq_zero.1 zero, Int.sign_zero]
    · rename_i nonzero
      exact (Binary64.sign_of_ne_zero fun zero => nonzero (by rw [zero]; rfl)).symm
  rw [value, signs, tenTo_zero, Nat.cast_one, div_one]
  dsimp only
  rw [Nat.cast_natAbs, ← Int.cast_mul, Int.sign_mul_abs]

theorem isWhole_iff : d.isWhole = true ↔ tenTo d.scale ∣ d.mantissa := by
  rw [isWhole, beq_iff_eq, Nat.dvd_iff_mod_eq_zero]

theorem value_of_dvd (whole : tenTo d.scale ∣ d.mantissa) : d.value = d.trunc := by
  obtain ⟨k, product⟩ := whole
  have size : d.mantissa / tenTo d.scale = k := by
    rw [product, Nat.mul_div_cancel_left _ (tenTo_pos _)]
  have ratio : (d.mantissa : ℚ) / tenTo d.scale = k := by
    rw [product, Nat.cast_mul, mul_div_cancel_left₀ _ (tenTo_cast_pos _).ne']
  rw [value, ratio, trunc, size, sign]
  split
  · rename_i empty
    have none : k = 0 := by
      rw [empty, eq_comm, Nat.mul_eq_zero] at product
      exact product.resolve_left (Nat.ne_of_gt (tenTo_pos _))
    simp [none]
  · split <;> simp

theorem dvd_of_value {n : ℤ} (same : d.value = n) : tenTo d.scale ∣ d.mantissa := by
  refine ⟨n.natAbs, ?_⟩
  have size : (d.mantissa : ℚ) / tenTo d.scale = n.natAbs := by
    rw [← abs_value, same, Nat.cast_natAbs, Int.cast_abs]
  rw [div_eq_iff (tenTo_cast_pos _).ne'] at size
  rw [Nat.mul_comm]
  exact_mod_cast size

theorem trunc_of_value {n : ℤ} (same : d.value = n) : d.trunc = n := by
  rw [value_of_dvd (dvd_of_value same)] at same
  exact_mod_cast same

section Doubles

variable {x : Float}

theorem abs_exact (x : Float) : |Binary64.exact x| = (steps x).natAbs / stepsPerOne := by
  have positive : (0 : ℚ) < stepsPerOne := Nat.cast_pos.2 (twoTo_pos _)
  rw [Binary64.exact, abs_div, abs_of_pos positive, ← Int.cast_abs, Int.abs_eq_natAbs]
  rfl

theorem vanishes_iff_abs : Vanishes x ↔ 18 * |Binary64.exact x| < 17 * unit := by
  have positive : (0 : ℚ) < stepsPerOne := Nat.cast_pos.2 (twoTo_pos _)
  rw [abs_exact, unit_eq, mul_div_assoc', mul_div_assoc', mul_one,
    div_lt_div_iff₀ positive (tenTo_cast_pos 28), Vanishes]
  have swapped : (18 * (steps x).natAbs : ℚ) * tenTo 28 = (18 * tenTo 28 * (steps x).natAbs : ℕ) := by
    push_cast
    ring
  rw [swapped]
  exact_mod_cast Iff.rfl

theorem abs_lt_unit_iff :
    2 * |Binary64.exact x| < unit ↔ 2 * (steps x).natAbs * tenTo 28 < stepsPerOne := by
  have positive : (0 : ℚ) < stepsPerOne := Nat.cast_pos.2 (twoTo_pos _)
  rw [abs_exact, unit_eq, mul_div_assoc', div_lt_div_iff₀ positive (tenTo_cast_pos 28), one_mul]
  exact_mod_cast Iff.rfl

theorem unit_le_abs_iff : unit ≤ |Binary64.exact x| ↔ stepsPerOne ≤ (steps x).natAbs * tenTo 28 := by
  have positive : (0 : ℚ) < stepsPerOne := Nat.cast_pos.2 (twoTo_pos _)
  rw [abs_exact, unit_eq, div_le_div_iff₀ (tenTo_cast_pos 28) positive, one_mul]
  exact_mod_cast Iff.rfl

theorem signType_inj : ∀ s t : SignType, (s : ℤ) = t → s = t := by
  decide

theorem ofFloat?_zero (finite : isFinite x = true) (zero : steps x = 0) :
    ofFloat? x = some (Decimal.zero (Binary64.isNegative x)) := by
  rw [ofFloat?]
  simp only [finite, Bool.not_true, Bool.false_eq_true, if_false,
    if_pos (Binary64.steps_eq_zero_iff.1 zero)]

theorem rounded_ofFloat? (finite : isFinite x = true) (h : ofFloat? x = some d) :
    Rounded (Binary64.exact x) d.value := by
  by_cases zero : steps x = 0
  · rw [ofFloat?_zero finite zero] at h
    cases h
    have none : (Decimal.zero (Binary64.isNegative x)).value = 0 := value_eq_zero_iff.2 rfl
    have exact : Binary64.exact x = 0 := by rw [Binary64.exact, zero, Int.cast_zero, zero_div]
    refine ⟨.inl none, fun large => ?_, fun _ => none⟩
    rw [exact, abs_zero] at large
    exact absurd large (not_le.2 DecimalLibrary.unit_pos)
  by_cases vanishes : Vanishes x
  · obtain ⟨d', found, empty⟩ := ofFloat?_of_vanishes finite zero vanishes
    obtain rfl : d' = d := Option.some.inj (found.symm.trans h)
    have none := value_eq_zero_iff.2 empty
    refine ⟨.inl none, fun large => ?_, fun _ => none⟩
    rw [vanishes_iff_abs] at vanishes
    linarith [DecimalLibrary.unit_pos]
  · obtain ⟨filled, sign⟩ := sign_ofFloat?_of_not_vanishes finite zero vanishes h
    refine ⟨.inr ?_, fun _ => mt value_eq_zero_iff.1 filled, fun small => ?_⟩
    · rw [DecimalLibrary.sign_exact]
      have signs := sign_value d
      rw [sign, Int.sign_eq_sign] at signs
      exact signType_inj _ _ signs
    · rw [vanishes_iff_abs] at vanishes
      linarith [DecimalLibrary.unit_pos, abs_nonneg (Binary64.exact x)]

theorem greatest_eq : greatest = (capacity - 1 : ℕ) := by
  norm_num [greatest, capacity]

theorem lt_capacity {n : Nat} (most : n ≤ capacity - 1) : n < capacity := by
  rw [capacity] at *
  omega

theorem make?_isSome {negative : Bool} {mantissa scale : Nat} (room : mantissa < capacity)
    (few : scale ≤ 28) : (make? negative mantissa scale).isSome := by
  rw [make?, dif_pos ⟨room, few⟩]
  rfl

theorem payHalves_lt {count mantissa : Nat} {exponent : Int} (room : mantissa < capacity) :
    (payHalves count mantissa exponent).1 < capacity := by
  induction count generalizing mantissa exponent with
  | zero => exact room
  | succ count ih =>
    rw [payHalves]
    split
    · rename_i fits
      exact ih fits.2
    · exact ih (Nat.lt_of_le_of_lt (Nat.div_le_self ..) room)

theorem dropDigit_le (mantissa : Nat) : dropDigit mantissa ≤ mantissa := by
  rw [dropDigit_eq]
  omega

theorem dropPlaces_bounds (count mantissa : Nat) (exponent : Int) :
    (dropPlaces count mantissa exponent).1 ≤ mantissa ∧
      (exponent + count ≤ (dropPlaces count mantissa exponent).2 ∨
        (dropPlaces count mantissa exponent).2 = 0) := by
  induction count generalizing mantissa exponent with
  | zero => exact ⟨Nat.le_refl _, .inl (by simp [dropPlaces])⟩
  | succ count ih =>
    rw [dropPlaces]
    split
    · exact ⟨Nat.zero_le _, .inr rfl⟩
    · obtain ⟨less, further⟩ := ih (dropDigit mantissa) (exponent + 1)
      refine ⟨Nat.le_trans less (dropDigit_le mantissa), further.imp_left fun le => ?_⟩
      omega

theorem dropNoise_bounds (scale mantissa : Nat) :
    (dropNoise scale mantissa).1 ≤ mantissa ∧ (dropNoise scale mantissa).2 ≤ scale := by
  induction scale generalizing mantissa with
  | zero => exact ⟨Nat.le_refl _, Nat.le_refl _⟩
  | succ scale ih =>
    rw [dropNoise]
    split
    · obtain ⟨less, fewer⟩ := ih (dropDigit mantissa)
      exact ⟨Nat.le_trans less (dropDigit_le mantissa), Nat.le_succ_of_le fewer⟩
    · exact ⟨Nat.le_refl _, Nat.le_refl _⟩

theorem dropZeros_bounds (scale mantissa : Nat) :
    (dropZeros scale mantissa).1 ≤ mantissa ∧ (dropZeros scale mantissa).2 ≤ scale := by
  induction scale generalizing mantissa with
  | zero => exact ⟨Nat.le_refl _, Nat.le_refl _⟩
  | succ scale ih =>
    rw [dropZeros]
    split
    · obtain ⟨less, fewer⟩ := ih (mantissa / 10)
      exact ⟨Nat.le_trans less (Nat.div_le_self ..), Nat.le_succ_of_le fewer⟩
    · exact ⟨Nat.le_refl _, Nat.le_refl _⟩

theorem digitsOf_fit {mantissa : Nat} (room : mantissa < capacity) (count : Nat) :
    (digitsOf count mantissa).1 < capacity ∧ (digitsOf count mantissa).2 ≤ 28 := by
  have paid : (payHalves count mantissa (-count)).1 < capacity := payHalves_lt room
  simp only [digitsOf]
  generalize payHalves count mantissa (-count) = paid' at paid ⊢
  obtain ⟨less, places⟩ := dropPlaces_bounds (-28 - paid'.2).toNat paid'.1 paid'.2
  generalize dropPlaces (-28 - paid'.2).toNat paid'.1 paid'.2 = dropped at less places ⊢
  obtain ⟨less', fewer⟩ := dropNoise_bounds (-dropped.2).toNat dropped.1
  generalize dropNoise (-dropped.2).toNat dropped.1 = clear at less' fewer ⊢
  obtain ⟨less'', fewer'⟩ := dropZeros_bounds clear.2 clear.1
  omega

theorem ofFloat?_isSome (finite : isFinite x = true) (bounded : |Binary64.exact x| ≤ greatest) :
    (ofFloat? x).isSome := by
  by_cases zero : steps x = 0
  · rw [ofFloat?_zero finite zero]
    rfl
  have pos : 0 < magnitude x := Nat.pos_of_ne_zero (mt Binary64.steps_eq_zero_iff.2 zero)
  by_cases large : 1075 ≤ magnitude x / binade
  · have whole : (steps x).natAbs =
        gapsOf (magnitude x) * twoTo (magnitude x / binade - 1075) * stepsPerOne := by
      rw [Binary64.natAbs_steps_eq, stepsPerOne, Nat.mul_assoc, ← twoTo_add]
      congr 2
      omega
    have fits : gapsOf (magnitude x) * twoTo (magnitude x / binade - 1075) < capacity := by
      have positive : (0 : ℚ) < stepsPerOne := Nat.cast_pos.2 (twoTo_pos _)
      rw [abs_exact, whole, Nat.cast_mul, mul_div_cancel_right₀ _ positive.ne', greatest_eq,
        Nat.cast_le] at bounded
      exact lt_capacity bounded
    rw [ofFloat?_of_large finite pos large]
    exact make?_isSome fits (Nat.zero_le _)
  · obtain ⟨count, some, places⟩ : ∃ count, 0 < count ∧ count + (magnitude x / binade - 1) = 1074 :=
      ⟨1074 - (magnitude x / binade - 1), by omega, by omega⟩
    have room : gapsOf (magnitude x) < capacity :=
      Nat.lt_trans (Binary64.gapsOf_lt (magnitude x)) (by decide)
    obtain ⟨fits, few⟩ := digitsOf_fit room count
    rw [ofFloat?_eq finite pos places some]
    exact make?_isSome fits few

end Doubles

def TooLong (mantissa scale drop : Nat) : Prop :=
  capacity ≤ roundHalfEven mantissa (tenTo drop) ∨ 28 < scale - drop

theorem make?_eq_none {negative : Bool} {mantissa scale : Nat}
    (h : make? negative mantissa scale = none) : capacity ≤ mantissa ∨ 28 < scale := by
  by_contra fits
  rw [not_or, Nat.not_le, Nat.not_lt] at fits
  rw [make?, dif_pos fits] at h
  cases h

theorem fitFrom_eq_some {negative : Bool} {mantissa scale tries drop : Nat}
    (h : fitFrom negative mantissa scale tries drop = some d) :
    ∃ k, k ≤ scale ∧ d.negative = negative ∧ d.mantissa = roundHalfEven mantissa (tenTo k) ∧
      d.scale = scale - k ∧ ∀ j, drop ≤ j → j < k → TooLong mantissa scale j := by
  induction tries generalizing drop with
  | zero => cases h
  | succ tries ih =>
    rw [fitFrom] at h
    split at h
    · cases h
    rename_i within
    split at h
    · rename_i e made
      cases h
      rw [make?] at made
      split at made
      · cases made
        exact ⟨drop, Nat.not_lt.1 within, rfl, rfl, rfl, fun j above below => by omega⟩
      · cases made
    · rename_i failed
      obtain ⟨k, few, negative, digits, places, longer⟩ := ih h
      refine ⟨k, few, negative, digits, places, fun j above below => ?_⟩
      rcases Nat.eq_or_lt_of_le above with rfl | above
      · exact make?_eq_none failed
      · exact longer j above below

theorem fitFrom_eq_none {negative : Bool} {mantissa scale tries drop : Nat} (within : drop ≤ scale)
    (enough : scale < drop + tries) (h : fitFrom negative mantissa scale tries drop = none) :
    capacity ≤ roundHalfEven mantissa (tenTo scale) := by
  induction tries generalizing drop with
  | zero => omega
  | succ tries ih =>
    rw [fitFrom, if_neg (Nat.not_lt.2 within)] at h
    split at h
    · cases h
    · rename_i failed
      rcases Nat.eq_or_lt_of_le within with rfl | within
      · exact (make?_eq_none failed).resolve_right (by omega)
      · exact ih within (by omega) h

section Fit

variable {mantissa scale k : Nat}

theorem filled_of_capacity (large : capacity ≤ roundHalfEven mantissa (tenTo k)) :
    roundHalfEven mantissa (tenTo (k + 1)) ≠ 0 := by
  have above := roundHalfEven_le mantissa (tenTo k)
  have below := le_roundHalfEven mantissa (tenTo k * 10)
  rw [← Nat.div_div_eq_div_mul] at below
  rw [capacity] at large
  rw [tenTo_succ, Nat.mul_comm]
  omega

/-- Something is left of a number that is no smaller than a unit in the last place. -/
theorem filled_of_unit_le (filled : mantissa ≠ 0) (large : tenTo scale ≤ mantissa * tenTo 28)
    (longer : ∀ j, 0 ≤ j → j < k → TooLong mantissa scale j) :
    roundHalfEven mantissa (tenTo k) ≠ 0 := by
  cases k with
  | zero =>
    have same := roundHalfEven_mul Nat.one_pos mantissa
    rw [Nat.mul_one] at same
    rwa [tenTo_zero, same]
  | succ k =>
    rcases longer k (Nat.zero_le _) (Nat.lt_succ_self _) with wide | many
    · exact filled_of_capacity wide
    · have unit : tenTo (k + 1) ≤ mantissa := by
        refine Nat.le_of_mul_le_mul_right (Nat.le_trans ?_ large) (tenTo_pos 28)
        rw [← Binary64.Digits.tenTo_add]
        exact tenTo_le_tenTo (by omega)
      have one := Nat.div_pos unit (tenTo_pos (k + 1))
      have below := le_roundHalfEven mantissa (tenTo (k + 1))
      omega

theorem empty_of_lt_half (small : 2 * (mantissa * tenTo 28) < tenTo scale) (few : scale - k ≤ 28) :
    roundHalfEven mantissa (tenTo k) = 0 := by
  have half : 2 * mantissa < tenTo k := by
    refine Nat.lt_of_mul_lt_mul_right (a := tenTo 28) ?_
    calc 2 * mantissa * tenTo 28
        = 2 * (mantissa * tenTo 28) := Nat.mul_assoc ..
      _ < tenTo scale := small
      _ ≤ tenTo (k + 28) := tenTo_le_tenTo (by omega)
      _ = tenTo k * tenTo 28 := Binary64.Digits.tenTo_add ..
  have none : mantissa / tenTo k = 0 := Nat.div_eq_of_lt (by omega)
  rw [roundHalfEven, none, Nat.mod_eq_of_lt (by omega), if_pos (.inl half)]

end Fit

theorem abs_product (a b : Decimal) :
    |a.value * b.value| = (a.mantissa * b.mantissa : ℕ) / tenTo (a.scale + b.scale) := by
  rw [abs_mul, abs_value, abs_value, div_mul_div_comm, Binary64.Digits.tenTo_add]
  push_cast
  rfl

theorem sign_product (filled : a.mantissa ≠ 0) (filled' : b.mantissa ≠ 0) (some : d.mantissa ≠ 0)
    (negative : d.negative = (a.negative != b.negative)) : d.sign = a.sign * b.sign := by
  rw [sign, sign, sign, if_neg some, if_neg filled, if_neg filled', negative]
  cases a.negative <;> cases b.negative <;> rfl

theorem rounded_mul (h : mul a b = some d) : Rounded (a.value * b.value) d.value := by
  rw [mul] at h
  split at h
  · rename_i empty
    cases h
    have none : (Decimal.zero false).value = 0 := value_eq_zero_iff.2 rfl
    have product : a.value * b.value = 0 := by
      rw [mul_eq_zero, value_eq_zero_iff, value_eq_zero_iff]
      exact empty
    refine ⟨.inl none, fun large => ?_, fun _ => none⟩
    rw [product, abs_zero] at large
    exact absurd large (not_le.2 DecimalLibrary.unit_pos)
  · rename_i filled
    rw [not_or] at filled
    obtain ⟨k, few, negative, digits, places, longer⟩ := fitFrom_eq_some h
    have bounded := d.scale_le
    have product := Nat.mul_ne_zero filled.1 filled.2
    have whole := tenTo_cast_pos (a.scale + b.scale)
    refine ⟨?_, fun large => ?_, fun small => ?_⟩
    · by_cases some : d.mantissa = 0
      · exact .inl (value_eq_zero_iff.2 some)
      · right
        refine signType_inj _ _ ?_
        rw [sign_value, sign_product filled.1 filled.2 some negative, sign_mul, SignType.coe_mul,
          sign_value, sign_value]
    · rw [unit_eq, abs_product, div_le_div_iff₀ (tenTo_cast_pos 28) whole, one_mul] at large
      rw [ne_eq, value_eq_zero_iff, digits]
      exact filled_of_unit_le product (by exact_mod_cast large) longer
    · rw [unit_eq, abs_product, mul_div_assoc', div_lt_div_iff₀ whole (tenTo_cast_pos 28), one_mul,
        mul_assoc] at small
      rw [value_eq_zero_iff, digits]
      exact empty_of_lt_half (by exact_mod_cast small) (by omega)

theorem mul_isSome (bounded : |a.value * b.value| ≤ greatest) : (mul a b).isSome := by
  rw [mul]
  split
  · rfl
  · rw [Option.isSome_iff_ne_none]
    intro none
    have long := fitFrom_eq_none (Nat.zero_le _) (by omega) none
    rw [abs_product, div_le_iff₀ (tenTo_cast_pos _), greatest_eq, ← Nat.cast_mul, Nat.cast_le]
      at bounded
    have most := @roundHalfEven_mono _ _ (tenTo (a.scale + b.scale)) bounded
    rw [roundHalfEven_mul (tenTo_pos _)] at most
    exact absurd long (Nat.not_le.2 (lt_capacity most))

theorem value_scaledTo {places : Nat} (enough : d.scale ≤ places) :
    d.value = d.scaledTo places / tenTo places := by
  have split : (tenTo places : ℚ) = tenTo d.scale * tenTo (places - d.scale) := by
    rw [← Nat.cast_mul, ← Binary64.Digits.tenTo_add, Nat.add_sub_cancel' enough]
  have positive := tenTo_cast_pos d.scale
  have positive' := tenTo_cast_pos (places - d.scale)
  have signed : (d.scaledTo places : ℚ) = d.sign * (d.mantissa * tenTo (places - d.scale)) := by
    rw [scaledTo, sign]
    split
    · split <;> simp [*]
    · split <;> simp [*]
  rw [signed, value, split]
  field_simp

theorem truncated_split (dividend divisor : ℤ) (nonzero : divisor ≠ 0) {unit : ℚ} (pos : 0 < unit) :
    (dividend * unit = (dividend.tdiv divisor : ℤ) * (divisor * unit) + (dividend.tmod divisor) * unit) ∧
      |(dividend.tmod divisor) * unit| < |divisor * unit| ∧
      |(dividend.tdiv divisor : ℤ) * (divisor * unit)| ≤ |dividend * unit| := by
  have split := Int.mul_tdiv_add_tmod dividend divisor
  have less : (dividend.tmod divisor).natAbs < divisor.natAbs := by
    rw [Int.natAbs_tmod]
    exact Nat.mod_lt _ (Int.natAbs_pos.2 nonzero)
  have within : (dividend.tdiv divisor * divisor).natAbs ≤ dividend.natAbs := by
    rw [Int.natAbs_mul, Int.natAbs_tdiv]
    exact Nat.div_mul_le_self ..
  refine ⟨?_, ?_, ?_⟩
  · rw [← mul_assoc, ← add_mul, mul_comm (dividend.tdiv divisor : ℚ)]
    exact_mod_cast congrArg (fun n : ℤ => (n : ℚ) * unit) split.symm
  · rw [abs_mul, abs_mul]
    refine mul_lt_mul_of_pos_right ?_ (abs_pos.2 pos.ne')
    rw [← Int.cast_abs, ← Int.cast_abs, Int.abs_eq_natAbs, Int.abs_eq_natAbs]
    exact_mod_cast less
  · rw [← mul_assoc, abs_mul (_ * _), abs_mul (dividend : ℚ)]
    refine mul_le_mul_of_nonneg_right ?_ (abs_nonneg unit)
    rw [← Int.cast_mul, ← Int.cast_abs, ← Int.cast_abs, Int.abs_eq_natAbs, Int.abs_eq_natAbs]
    exact_mod_cast within

theorem scaledTo_eq (d : Decimal) (places : Nat) :
    d.scaledTo places =
      if d.negative then -((d.scaledTo places).natAbs : ℤ) else (d.scaledTo places).natAbs := by
  rw [scaledTo]
  split <;> simp

theorem scaledTo_tmod (d : Decimal) (places : Nat) (divisor : ℤ) :
    (d.scaledTo places).tmod divisor =
      if d.negative then -(((d.scaledTo places).natAbs % divisor.natAbs : ℕ) : ℤ)
      else ((d.scaledTo places).natAbs % divisor.natAbs : ℕ) := by
  have size (n : ℕ) : (n : ℤ).tmod divisor = (n % divisor.natAbs : ℕ) := by
    rcases Int.natAbs_eq divisor with positive | negative
    · rw [Int.ofNat_tmod, ← positive]
    · rw [Int.ofNat_tmod, ← Int.tmod_neg _ (divisor.natAbs : ℤ), ← negative]
  rw [← size]
  nth_rewrite 1 [scaledTo_eq]
  split
  · rw [Int.neg_tmod]
  · rfl

/-- The remainder of two decimals is the truncated one of their multiples of the finer unit. -/
theorem scaledTo_rem (h : rem a b = some d) :
    b.scaledTo (max a.scale b.scale) ≠ 0 ∧ d.scale ≤ max a.scale b.scale ∧
      d.scaledTo (max a.scale b.scale) =
        (a.scaledTo (max a.scale b.scale)).tmod (b.scaledTo (max a.scale b.scale)) := by
  rw [rem] at h
  rw [scaledTo_tmod]
  have least : a.scale ≤ max a.scale b.scale := Nat.le_max_left ..
  generalize max a.scale b.scale = p at h least ⊢
  generalize b.scaledTo p = divisor at h ⊢
  split at h
  · cases h
  rename_i nonzero
  refine ⟨nonzero, ?_⟩
  split at h
  · rename_i smaller
    cases h
    rw [Nat.mod_eq_of_lt smaller]
    exact ⟨least, scaledTo_eq a p⟩
  · rw [make?] at h
    split at h
    · cases h
      refine ⟨Nat.le_refl _, ?_⟩
      rw [scaledTo, Nat.sub_self, tenTo_zero, Nat.mul_one]
    · cases h

theorem split_rem (h : rem a b = some d) :
    ∃ q : ℤ, a.value = q * b.value + d.value ∧ |d.value| < |b.value| ∧ |q * b.value| ≤ |a.value| := by
  obtain ⟨nonzero, within, rest⟩ := scaledTo_rem h
  have pos : (0 : ℚ) < 1 / tenTo (max a.scale b.scale) :=
    one_div_pos.2 (tenTo_cast_pos (max a.scale b.scale))
  have parts := truncated_split (a.scaledTo (max a.scale b.scale)) _ nonzero pos
  rw [← rest] at parts
  simp only [mul_one_div] at parts
  rw [← value_scaledTo (Nat.le_max_left ..), ← value_scaledTo (Nat.le_max_right ..),
    ← value_scaledTo within] at parts
  exact ⟨_, parts⟩

theorem toFloat?_sign (filled : d.value ≠ 0) :
    Binary64.isNaN d.toFloat = false ∧ (steps d.toFloat).sign = SignType.sign d.value := by
  have digits := mt value_eq_zero_iff.2 filled
  exact ⟨(signed_toFloat digits).isNaN_eq, (sign_steps_toFloat digits).trans (sign_value d).symm⟩

theorem toInteger?_iff {n : ℤ} (same : d.value = n) (m : Int64) :
    Number.toInt64? d.trunc = some m ↔ m.toInt = n := by
  rw [trunc_of_value same, Number.toInt64?_eq_some_iff]

theorem laws : library.Laws value where
  places := places_value
  ofInteger? := ofInt64_value
  ofFloat?_rounded _ _ := rounded_ofFloat?
  ofFloat?_isSome _ := ofFloat?_isSome
  mul_rounded _ _ _ := rounded_mul
  mul_isSome _ _ := mul_isSome
  rem _ _ _ := split_rem
  isInteger d := isWhole_iff.trans
    ⟨fun whole => ⟨d.trunc, value_of_dvd whole⟩, fun ⟨_, same⟩ => dvd_of_value same⟩
  toInteger? _ _ := toInteger?_iff
  toFloat? d x filled found := by
    cases found
    exact toFloat?_sign filled

end RecordPipeline.Decimal
