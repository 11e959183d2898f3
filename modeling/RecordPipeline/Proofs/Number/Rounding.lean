import RecordPipeline.Proofs.Number.Bits
import RecordPipeline.Proofs.Number.Nearest

/-!
The order of integers and of their doubles. Rounding never turns an order around, so integers whose
doubles differ are ordered as these are; what it may do is to make different integers equal.
-/

namespace RecordPipeline

theorem le_roundHalfEven (num den : Nat) : num / den ≤ roundHalfEven num den := by
  simp only [roundHalfEven]
  split <;> omega

theorem roundHalfEven_le (num den : Nat) : roundHalfEven num den ≤ num / den + 1 := by
  simp only [roundHalfEven]
  split <;> omega

theorem roundHalfEven_mono {num other den : Nat} (le : num ≤ other) :
    roundHalfEven num den ≤ roundHalfEven other den := by
  rcases Nat.lt_or_eq_of_le (Nat.div_le_div_right (c := den) le) with less | same
  · exact Nat.le_trans (roundHalfEven_le num den)
      (Nat.le_trans less (le_roundHalfEven other den))
  · have parts := Nat.div_add_mod num den
    have others := Nat.div_add_mod other den
    rw [same] at parts
    simp only [roundHalfEven, same]
    split
    · split <;> omega
    · rw [if_neg (by omega)]

theorem twoTo_lt_iff {s t : Nat} : twoTo s < twoTo t ↔ s < t :=
  Nat.pow_lt_pow_iff_right (by decide)

theorem twoTo_dvd {s t : Nat} (le : s ≤ t) : twoTo s ∣ twoTo t :=
  Nat.pow_dvd_pow 2 le

namespace Binary64

theorem shift_bounds (count : Nat) :
    (count.log2 - 52 = 0 ∨ binade * twoTo (count.log2 - 52) ≤ count) ∧
      count < 2 * binade * twoTo (count.log2 - 52) := by
  have binadePower : binade = 2 ^ 52 := by decide
  have power (s : Nat) : twoTo s = 2 ^ s := rfl
  have below := Nat.lt_log2_self (n := count)
  rw [binadePower, power, ← Nat.pow_add, ← Nat.pow_succ', ← Nat.pow_add]
  refine ⟨?_, Nat.lt_of_lt_of_le below (Nat.pow_le_pow_right (by decide) (by omega))⟩
  by_cases small : count.log2 ≤ 52
  · exact .inl (by omega)
  · have filled : count ≠ 0 := by
      rintro rfl
      simp at small
    rw [Nat.add_sub_cancel' (by omega)]
    exact .inr (Nat.log2_self_le filled)

theorem nearestMagnitude_mono {num other den : Nat} (le : num ≤ other) :
    nearestMagnitude num den ≤ nearestMagnitude other den := by
  have scaled : num * stepsPerOne ≤ other * stepsPerOne := Nat.mul_le_mul_right _ le
  have counts : num * stepsPerOne / den ≤ other * stepsPerOne / den := Nat.div_le_div_right scaled
  obtain ⟨-, most⟩ := shift_bounds (num * stepsPerOne / den)
  obtain ⟨least, -⟩ := shift_bounds (other * stepsPerOne / den)
  have shifts : (num * stepsPerOne / den).log2 - 52 ≤ (other * stepsPerOne / den).log2 - 52 := by
    rw [Nat.log2_eq_log_two, Nat.log2_eq_log_two]
    exact Nat.sub_le_sub_right (Nat.log_mono_right counts) 52
  simp only [nearestMagnitude]
  generalize (num * stepsPerOne / den).log2 - 52 = s at *
  generalize (other * stepsPerOne / den).log2 - 52 = t at *
  refine Nat.le_min.2 ⟨Nat.min_le_left .., Nat.le_trans (Nat.min_le_right ..) ?_⟩
  rcases Nat.lt_or_eq_of_le shifts with less | rfl
  · -- between the two lies a power of two
    have above := roundHalfEven_le (num * stepsPerOne) (den * twoTo s)
    have below := le_roundHalfEven (other * stepsPerOne) (den * twoTo t)
    rw [← Nat.div_div_eq_div_mul] at above below
    have few := (Nat.div_lt_iff_lt_mul (twoTo_pos s)).2 most
    have many := (Nat.le_div_iff_mul_le (twoTo_pos t)).2 (least.resolve_left (by omega))
    have next : (s + 1) * binade ≤ t * binade := Nat.mul_le_mul_right binade less
    rw [Nat.add_mul] at next
    omega
  · exact Nat.add_le_add_left (roundHalfEven_mono scaled) _

theorem binade_le_gapsOf {bits : Nat} (normal : 0 < bits / binade) : binade ≤ gapsOf bits := by
  rw [gapsOf, if_neg (Nat.ne_of_gt normal)]
  exact Nat.le_add_right ..

theorem stepsOfMagnitude_strictMono : StrictMono stepsOfMagnitude := by
  intro bits other less
  have parts := magnitude_eq bits
  have others := magnitude_eq other
  have exponents : bits / binade - 1 ≤ other / binade - 1 :=
    Nat.sub_le_sub_right (Nat.div_le_div_right (Nat.le_of_lt less)) 1
  rw [stepsOfMagnitude_eq, stepsOfMagnitude_eq]
  rcases Nat.lt_or_eq_of_le exponents with lower | same
  · have most : gapsOf bits * gapOf bits < 2 * binade * gapOf bits :=
      Nat.mul_lt_mul_of_pos_right (gapsOf_lt bits) (gapOf_pos bits)
    have gaps : 2 * gapOf bits ≤ gapOf other := by
      rw [gapOf, gapOf, ← twoTo_succ]
      exact Nat.pow_le_pow_right (by decide) lower
    calc
      gapsOf bits * gapOf bits < 2 * binade * gapOf bits := most
      _ = binade * (2 * gapOf bits) := by ac_rfl
      _ ≤ gapsOf other * gapOf other := Nat.mul_le_mul (binade_le_gapsOf (by omega)) gaps
  · have gap : gapOf bits = gapOf other := by rw [gapOf, gapOf, same]
    rw [gap]
    exact Nat.mul_lt_mul_of_pos_right (by rw [same] at parts; omega) (gapOf_pos other)

theorem nearestMagnitude_le (num den : Nat) : nearestMagnitude num den ≤ infinityBits :=
  Nat.min_le_left ..

theorem isNaN_ofInt (n : Int) : isNaN (ofInt n) = false := by
  have bounded := nearestMagnitude_le n.natAbs 1
  rw [isNaN, ofInt, ofRatio, magnitude_ofMagnitude bounded]
  exact decide_eq_false (Nat.not_lt.2 bounded)

theorem steps_ofInt (n : Int) :
    steps (ofInt n) =
      if n < 0 then -(stepsOfMagnitude (nearestMagnitude n.natAbs 1) : Int)
      else (stepsOfMagnitude (nearestMagnitude n.natAbs 1) : Int) := by
  have bounded := nearestMagnitude_le n.natAbs 1
  rw [steps, ofInt, ofRatio, magnitude_ofMagnitude bounded, isNegative_ofMagnitude bounded]
  simp only [decide_eq_true_eq]

theorem steps_ofInt_mono : Monotone fun n => steps (ofInt n) := by
  have sizes {m n : Nat} (le : m ≤ n) :
      stepsOfMagnitude (nearestMagnitude m 1) ≤ stepsOfMagnitude (nearestMagnitude n 1) :=
    stepsOfMagnitude_strictMono.monotone (nearestMagnitude_mono le)
  intro m n le
  simp only [steps_ofInt]
  split
  · split
    · have := sizes (show n.natAbs ≤ m.natAbs by omega)
      omega
    · omega
  · rw [if_neg (by omega)]
    have := sizes (show m.natAbs ≤ n.natAbs by omega)
    omega

theorem compare?_ofInt (m n : Int) :
    compare? (ofInt m) (ofInt n) = some (compare (steps (ofInt m)) (steps (ofInt n))) := by
  simp [compare?, isNaN_ofInt]

theorem compare_steps_ofInt {m n : Int} (distinct : same (ofInt m) (ofInt n) = true → m = n) :
    compare (steps (ofInt m)) (steps (ofInt n)) = compare m n := by
  rw [same_iff, compare?_ofInt, Option.some.injEq, Int.compare_eq_eq] at distinct
  rcases Int.lt_trichotomy m n with less | rfl | greater
  · have le := steps_ofInt_mono (Int.le_of_lt less)
    have strict := lt_of_le_of_ne le fun equal => Int.ne_of_lt less (distinct equal)
    rw [Int.compare_eq_lt.2 less, Int.compare_eq_lt.2 strict]
  · simp
  · have le := steps_ofInt_mono (Int.le_of_lt greater)
    have strict := lt_of_le_of_ne le fun equal => Int.ne_of_gt greater (distinct equal.symm)
    rw [Int.compare_eq_gt.2 greater, Int.compare_eq_gt.2 strict]

theorem same_zero_iff {x : Float} (number : isNaN x = false) : same x 0 = true ↔ steps x = 0 := by
  have zero : isNaN 0 = false := by decide +kernel
  have origin : steps 0 = 0 := by decide +kernel
  rw [same_iff, compare?, number, zero, origin, Bool.or_self, if_neg Bool.false_ne_true,
    Option.some.injEq, Int.compare_eq_eq]

theorem stepsOfMagnitude_shifted {s k : Nat} (least : s = 0 ∨ binade ≤ k) (most : k < 2 * binade) :
    stepsOfMagnitude (s * binade + k) = k * twoTo s := by
  by_cases normal : binade ≤ k
  · have exponent : (s * binade + k) / binade = s + 1 := by
      rw [Nat.add_comm, Nat.add_mul_div_right _ _ (by decide : 0 < binade),
        Nat.div_eq_of_lt_le (k := 1) (by omega) (by omega), Nat.add_comm]
    have fraction : (s * binade + k) % binade = k - binade := by
      rw [Nat.add_comm, Nat.add_mul_mod_self_right, Nat.mod_eq_sub_mod normal,
        Nat.mod_eq_of_lt (by omega)]
    simp only [stepsOfMagnitude, exponent, fraction, if_neg (Nat.succ_ne_zero s),
      Nat.add_sub_cancel' normal, Nat.add_sub_cancel]
  · obtain rfl := least.resolve_right normal
    have below : k < binade := Nat.not_le.1 normal
    simp [stepsOfMagnitude, Nat.div_eq_of_lt below, Nat.mod_eq_of_lt below]

theorem stepsOfMagnitude_nearest {size : Nat} (small : size < 2 * binade) :
    stepsOfMagnitude (nearestMagnitude size 1) = size * stepsPerOne := by
  obtain ⟨one, few, unit⟩ : ∃ one ≤ 1074, stepsPerOne = twoTo one := ⟨1074, Nat.le_refl _, rfl⟩
  obtain ⟨least, most⟩ := shift_bounds (size * stepsPerOne)
  generalize shift : (size * stepsPerOne).log2 - 52 = s at least most
  have short : s ≤ one := by
    rcases least with rfl | least
    · exact Nat.zero_le one
    have reach : binade * twoTo s < binade * twoTo (one + 1) := by
      calc
        binade * twoTo s ≤ size * stepsPerOne := least
        _ < 2 * binade * stepsPerOne := Nat.mul_lt_mul_of_pos_right small stepsPerOne_pos
        _ = binade * twoTo (one + 1) := by rw [twoTo_succ, unit]; ac_rfl
    exact Nat.le_of_lt_succ (twoTo_lt_iff.1 (Nat.lt_of_mul_lt_mul_left reach))
  obtain ⟨k, gaps⟩ : ∃ k, size * stepsPerOne = k * twoTo s := by
    obtain ⟨k, gaps⟩ := Nat.dvd_mul_left_of_dvd (unit ▸ twoTo_dvd short) size
    exact ⟨k, by rw [gaps, Nat.mul_comm]⟩
  rw [gaps] at least most
  have fits : s = 0 ∨ binade ≤ k :=
    least.imp_right fun le => Nat.le_of_mul_le_mul_right le (twoTo_pos s)
  have below : k < 2 * binade := Nat.lt_of_mul_lt_mul_right most
  have finite : s * binade + k ≤ infinityBits := by
    rw [infinityBits, binade] at *
    omega
  rw [nearestMagnitude, Nat.div_one, shift, Nat.one_mul, gaps, roundHalfEven_mul (twoTo_pos s),
    Nat.min_eq_right finite, stepsOfMagnitude_shifted fits below]

theorem steps_ofInt_exact {n : Int} (small : n.natAbs ≤ 2 * binade) :
    steps (ofInt n) = n * stepsPerOne := by
  have size : stepsOfMagnitude (nearestMagnitude n.natAbs 1) = n.natAbs * stepsPerOne := by
    rcases Nat.lt_or_eq_of_le small with less | last
    · exact stepsOfMagnitude_nearest less
    · rw [last]
      decide +kernel
  rw [steps_ofInt, size]
  rw [Nat.cast_mul, ← Int.neg_mul]
  split
  · rw [show -(n.natAbs : Int) = n by omega]
  · rw [show (n.natAbs : Int) = n by omega]

theorem eq_of_same_ofInt {m n : Int} (hm : m.natAbs ≤ 2 * binade) (hn : n.natAbs ≤ 2 * binade)
    (h : same (ofInt m) (ofInt n) = true) : m = n := by
  rw [same_iff, compare?_ofInt, Option.some.injEq, Int.compare_eq_eq, steps_ofInt_exact hm,
    steps_ofInt_exact hn] at h
  exact Int.eq_of_mul_eq_mul_right (Int.natCast_ne_zero.2 (Nat.ne_of_gt stepsPerOne_pos)) h

theorem sign_steps_ofInt (n : Int) : (steps (ofInt n)).sign = n.sign := by
  have one : steps (ofInt 1) = stepsPerOne := by
    rw [steps_ofInt_exact (by decide), Int.one_mul]
  have minusOne : steps (ofInt (-1)) = -stepsPerOne := by
    rw [steps_ofInt_exact (by decide), Int.neg_one_mul]
  have unit : (0 : Int) < stepsPerOne := Int.natCast_pos.2 stepsPerOne_pos
  rcases Int.lt_trichotomy n 0 with negative | rfl | positive
  · have most := steps_ofInt_mono (show n ≤ -1 by omega)
    simp only [minusOne] at most
    rw [Int.sign_eq_neg_one_of_neg negative, Int.sign_eq_neg_one_of_neg (by omega)]
  · rw [steps_ofInt_exact (by decide), Int.zero_mul]
  · have least := steps_ofInt_mono (show 1 ≤ n by omega)
    simp only [one] at least
    rw [Int.sign_eq_one_of_pos positive, Int.sign_eq_one_of_pos (by omega)]

end Binary64

end RecordPipeline
