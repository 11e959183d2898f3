import RecordPipeline.Platform.Reference
import RecordPipeline.Proofs.Number.DecimalLaws
import RecordPipeline.Proofs.Number.Library
import RecordPipeline.Proofs.Value.Integers

/-!
Signs of remainders. Integers and doubles have remainders on the side of the divisor; an integer and
a double that meet as decimals have one on the side of the dividend.
-/

namespace RecordPipeline

open Binary64 (steps isNaN isFinite magnitude isNegative Rounds)

namespace Value

def sign? : Value → Option Int
  | integer n => some n.toInt.sign
  | float x => if isNaN x then none else some (steps x).sign
  | _ => none

def isFiniteNumber : Value → Bool
  | integer _ => true
  | float x => isFinite x
  | _ => false

section Floats

variable {x y : Float}

theorem isNaN_of_isFinite (finite : isFinite x = true) : isNaN x = false := by
  simp only [isFinite, decide_eq_true_eq] at finite
  exact decide_eq_false (by omega)

theorem truncatedRem_eq (finite : isFinite x = true) (finite' : isFinite y = true)
    (nonzero : steps y ≠ 0) :
    Binary64.truncatedRem x y =
      Binary64.ofSteps (isNegative x) ((steps x).natAbs % (steps y).natAbs) := by
  have number := isNaN_of_isFinite finite
  have number' := isNaN_of_isFinite finite'
  simp only [isFinite, decide_eq_true_eq] at finite finite'
  have bounded : Binary64.isInfinite x = false := beq_eq_false_iff_ne.2 (by omega)
  have bounded' : Binary64.isInfinite y = false := beq_eq_false_iff_ne.2 (by omega)
  have divides : (steps y == 0) = false := beq_eq_false_iff_ne.2 nonzero
  rw [Binary64.truncatedRem, number, number', bounded, bounded', divides]
  rfl

theorem rounds_truncatedRem (finite : isFinite x = true) (finite' : isFinite y = true)
    (nonzero : steps y ≠ 0) :
    Rounds (Binary64.truncatedRem x y) ((steps x).tmod (steps y)) := by
  refine ⟨isNegative x, ?_, fun rest => ?_⟩
  · rw [truncatedRem_eq finite finite' nonzero, Int.natAbs_tmod]
  · have filled : steps x ≠ 0 := by
      intro zero
      rw [zero, Int.zero_tmod] at rest
      exact rest rfl
    rw [Binary64.isNegative_eq filled]
    rcases Int.lt_or_gt_of_ne filled with negative | positive
    · have below : -(steps x).tmod (steps y) ≥ 0 := by
        rw [← Int.neg_tmod]
        exact Int.tmod_nonneg _ (by omega)
      exact decide_eq_decide.2 (by omega)
    · have above := Int.tmod_nonneg (steps y) (Int.le_of_lt positive)
      exact decide_eq_decide.2 (by omega)

def euclideanRem (x y : Float) : Float :=
  if steps (Binary64.truncatedRem x y) < 0 then Binary64.truncatedRem x y + y.abs
  else Binary64.truncatedRem x y

theorem moduloFloats_eq (x y : Float) :
    NumberRule.moduloFloats x y =
      if steps y < 0 ∧ steps (euclideanRem x y) ≠ 0 then euclideanRem x y + y
      else euclideanRem x y := rfl

theorem euclideanRem_bounds (finite : isFinite x = true) (finite' : isFinite y = true)
    (nonzero : steps y ≠ 0) :
    isFinite (euclideanRem x y) = true ∧ 0 ≤ steps (euclideanRem x y) ∧
      steps (euclideanRem x y) ≤ (steps y).natAbs := by
  have rounds := rounds_truncatedRem finite finite' nonzero
  have bounded : magnitude y < Binary64.infinityBits := by simpa [isFinite] using finite'
  have number := Nat.le_of_lt bounded
  have small : ((steps x).tmod (steps y)).natAbs ≤ (steps y).natAbs := by
    rw [Int.natAbs_tmod]
    exact Nat.le_of_lt (Nat.mod_lt _ (Int.natAbs_pos.2 nonzero))
  have less := rounds.magnitude_le number small
  rw [euclideanRem]
  generalize Binary64.truncatedRem x y = t at rounds less ⊢
  have finiteRest : isFinite t = true := decide_eq_true (Nat.lt_of_le_of_lt less bounded)
  have size := Binary64.natAbs_steps_le less
  split
  · have absolute := Binary64.abs_eq_ofMagnitude bounded
    have finiteSize : isFinite y.abs = true := by
      rw [absolute, isFinite, Binary64.magnitude_ofMagnitude number]
      exact decide_eq_true bounded
    have stepsSize : steps y.abs = (steps y).natAbs := by
      rw [absolute, steps, Binary64.isNegative_ofMagnitude number,
        Binary64.magnitude_ofMagnitude number, Binary64.natAbs_steps]
      rfl
    have sum := Binary64.rounds_add finiteRest finiteSize
    rw [stepsSize] at sum
    have kept := sum.magnitude_le number (by omega)
    have within := Binary64.natAbs_steps_le kept
    have above := sum.nonneg (by omega)
    exact ⟨decide_eq_true (Nat.lt_of_le_of_lt kept bounded), above, by omega⟩
  · exact ⟨finiteRest, by omega, by omega⟩

theorem sign?_float (number : isNaN x = false) : sign? (.float x) = some (steps x).sign := by
  rw [sign?, number]
  rfl

theorem sign_moduloFloats (finite : isFinite x = true) (finite' : isFinite y = true)
    (nonzero : steps y ≠ 0) :
    ∃ s, sign? (.float (NumberRule.moduloFloats x y)) = some s ∧ (s = 0 ∨ s = (steps y).sign) := by
  obtain ⟨finiteRest, above, within⟩ := euclideanRem_bounds finite finite' nonzero
  rw [moduloFloats_eq]
  generalize euclideanRem x y = r at *
  split
  · rename_i moved
    have sum := Binary64.rounds_add finiteRest finite'
    have below := sum.nonpos (by omega)
    refine ⟨_, sign?_float sum.isNaN_eq, ?_⟩
    rw [Int.sign_eq_neg_one_of_neg moved.1]
    rcases Int.lt_or_eq_of_le below with negative | zero
    · exact .inr (Int.sign_eq_neg_one_of_neg negative)
    · exact .inl (Int.sign_eq_zero_iff_zero.2 zero)
  · rename_i kept
    refine ⟨_, sign?_float (isNaN_of_isFinite finiteRest), ?_⟩
    rcases Int.lt_or_eq_of_le above with positive | zero
    · have divisor : 0 < steps y := by
        by_contra negative
        exact kept ⟨by omega, by omega⟩
      rw [Int.sign_eq_one_of_pos positive, Int.sign_eq_one_of_pos divisor]
      exact .inr rfl
    · exact .inl (Int.sign_eq_zero_iff_zero.2 zero.symm)

end Floats

section Decimals

variable {decimals : DecimalLibrary} {value : decimals.Number → ℚ} {a b v : Value}
  {d : decimals.Number}

theorem sign?_of_toDecimal? (laws : decimals.Laws value) (finite : a.isFiniteNumber = true)
    (h : a.toDecimal? decimals = some d) :
    value d = 0 ∨ a.sign? = some (SignType.sign (value d) : ℤ) := by
  cases a with
  | integer n =>
    obtain ⟨c, found, same⟩ := laws.ofInteger? n
    obtain rfl : c = d := Option.some.inj (found.symm.trans h)
    right
    rw [sign?, same, sign_intCast, Int.sign_eq_sign]
  | float x =>
    refine (laws.ofFloat?_rounded x d finite h).sign.imp_right fun same => ?_
    rw [sign?_float (isNaN_of_isFinite finite), same, DecimalLibrary.sign_exact, Int.sign_eq_sign]
  | _ => cases finite

theorem sign?_of_ofDecimal? (laws : decimals.Laws value) (h : ofDecimal? decimals d = some v) :
    v.sign? = some (SignType.sign (value d) : ℤ) := by
  rw [ofDecimal?] at h
  split at h
  · rename_i n found
    split at found
    · rename_i whole
      obtain ⟨m, same⟩ := (laws.isInteger d).1 whole
      cases h
      rw [sign?, (laws.toInteger? d m same n).1 found, same, sign_intCast, Int.sign_eq_sign]
    · cases found
  · rename_i none
    obtain ⟨x, double, rfl⟩ := Option.map_eq_some_iff.1 h
    by_cases zero : value d = 0
    · -- zero is an integer of 64 bits, so it would have become one
      have same : value d = (0 : ℤ) := by rw [zero, Int.cast_zero]
      rw [if_pos ((laws.isInteger d).2 ⟨0, same⟩), (laws.toInteger? d 0 same 0).2 rfl] at none
      cases none
    · obtain ⟨number, sign⟩ := laws.toFloat? d x zero double
      rw [sign?_float number, sign]

/-- Whether the remainder is taken of decimals: the kinds differ, and the decimals of the two numbers
have a remainder that is a value. -/
def meetsAsDecimals (decimals : DecimalLibrary) (a b : Value) : Bool :=
  a.kind != b.kind && ((NumberRule.modulo decimals).throughDecimals? a b).isSome

/-- A remainder is zero or has the sign of the divisor, or of the dividend if these meet as
decimals. -/
def TakesSign (decimals : DecimalLibrary) (a b r : Value) : Prop :=
  ∃ s, r.sign? = some s ∧ (s = 0 ∨ (if meetsAsDecimals decimals a b then a else b).sign? = some s)

theorem sign?_throughDecimals? (laws : decimals.Laws value) (finite : a.isFiniteNumber = true)
    (h : (NumberRule.modulo decimals).throughDecimals? a b = some v) :
    ∃ s, v.sign? = some s ∧ (s = 0 ∨ a.sign? = some s) := by
  rw [NumberRule.throughDecimals?] at h
  obtain ⟨c, dividend, h⟩ := Option.bind_eq_some_iff.1 h
  obtain ⟨d, -, h⟩ := Option.bind_eq_some_iff.1 h
  obtain ⟨e, rest, h⟩ := Option.bind_eq_some_iff.1 h
  obtain ⟨q, split, -, within⟩ := laws.rem c d e rest
  refine ⟨_, sign?_of_ofDecimal? laws h, ?_⟩
  rcases DecimalLibrary.sign_remainder split within with zero | same
  · exact .inl (by rw [zero, sign_zero]; rfl)
  rcases sign?_of_toDecimal? laws finite dividend with zero | sign
  · exact .inl (by rw [same, zero, sign_zero]; rfl)
  · exact .inr (by rw [same, sign])

end Decimals

theorem isFinite_ofInt (n : Int64) : isFinite (Binary64.ofInt n.toInt) = true := by
  have least := n.le_toInt
  have most := n.toInt_lt
  have bounded := Binary64.nearestMagnitude_le n.toInt.natAbs 1
  have largest : Binary64.nearestMagnitude (2 ^ 63) 1 < Binary64.infinityBits := by decide +kernel
  rw [isFinite, Binary64.ofInt, Binary64.ofRatio, Binary64.magnitude_ofMagnitude bounded]
  exact decide_eq_true
    (Nat.lt_of_le_of_lt (Binary64.nearestMagnitude_mono (by omega)) largest)

theorem toFloat?_of_isFiniteNumber {a : Value} (finite : a.isFiniteNumber = true) :
    ∃ x, a.toFloat? = some x ∧ isFinite x = true ∧ a.sign? = some (steps x).sign := by
  cases a with
  | integer n =>
    refine ⟨_, rfl, isFinite_ofInt n, ?_⟩
    rw [sign?, Binary64.sign_steps_ofInt]
  | float x => exact ⟨x, rfl, finite, sign?_float (isNaN_of_isFinite finite)⟩
  | _ => cases finite

section Numbers

variable {decimals : DecimalLibrary} {value : decimals.Number → ℚ} {a b r : Value} {x y : Float}

theorem takesSign_floats (finite : isFinite x = true) (finite' : isFinite y = true)
    (nonzero : steps y ≠ 0) (sign : b.sign? = some (steps y).sign)
    (apart : meetsAsDecimals decimals a b = false) :
    TakesSign decimals a b (.float (NumberRule.moduloFloats x y)) := by
  obtain ⟨s, found, signs⟩ := sign_moduloFloats finite finite' nonzero
  refine ⟨s, found, signs.imp_right fun same => ?_⟩
  rw [apart, same]
  exact sign

theorem takesSign_mixed (laws : decimals.Laws value) (finite : a.isFiniteNumber = true)
    (kinds : a.kind ≠ b.kind) (finiteFloat : isFinite x = true) (finiteFloat' : isFinite y = true)
    (nonzero : steps y ≠ 0) (sign : b.sign? = some (steps y).sign) :
    TakesSign decimals a b ((NumberRule.modulo decimals).mixed a b x y) := by
  have differ : (a.kind != b.kind) = true := bne_iff_ne.2 kinds
  rw [NumberRule.mixed]
  cases through : (NumberRule.modulo decimals).throughDecimals? a b with
  | none =>
    refine takesSign_floats finiteFloat finiteFloat' nonzero sign ?_
    rw [meetsAsDecimals, through, Option.isSome_none, Bool.and_false]
  | some v =>
    obtain ⟨s, found, signs⟩ := sign?_throughDecimals? laws finite through
    have meets : meetsAsDecimals decimals a b = true := by
      rw [meetsAsDecimals, differ, through, Option.isSome_some, Bool.and_true]
    refine ⟨s, found, ?_⟩
    rwa [meets, if_pos rfl]

theorem integer_of_ofInt {n : Int} (h : ofInt n = .ok r) :
    ∃ m : Int64, r = integer m ∧ m.toInt = n := by
  rw [ofInt] at h
  split at h
  · rename_i m fits
    cases h
    exact ⟨m, rfl, Number.toInt64?_eq_some_iff.1 fits⟩
  · cases h

theorem takesSign_integers {m n : Int64} (filled : n.toInt ≠ 0)
    (h : NumberRule.moduloIntegers m.toInt n.toInt = .ok r) :
    TakesSign decimals (integer m) (integer n) r := by
  have least := Int.emod_nonneg m.toInt filled
  have most := Int.emod_lt_abs m.toInt filled
  rw [NumberRule.moduloIntegers] at h
  split at h
  · obtain ⟨k, rfl, value⟩ := integer_of_ofInt h
    refine ⟨k.toInt.sign, rfl, ?_⟩
    by_cases zero : k.toInt = 0
    · exact .inl (Int.sign_eq_zero_iff_zero.2 zero)
    right
    have same : k.toInt.sign = n.toInt.sign := by
      rcases Int.lt_or_gt_of_ne filled with negative | positive
      · rw [abs_of_neg negative] at most
        split at value
        · rw [Int.sign_eq_neg_one_of_neg negative, Int.sign_eq_neg_one_of_neg (by omega)]
        · omega
      · rw [if_neg (by omega)] at value
        rw [Int.sign_eq_one_of_pos positive, Int.sign_eq_one_of_pos (by omega)]
    rw [same]
    rfl
  · cases h

theorem modulo_floats (nonzero : isZero (float y) = false) :
    modulo decimals (float x) (float y) = .ok (float (NumberRule.moduloFloats x y)) := by
  rw [modulo, nonzero]
  rfl

/-- A remainder of numbers takes the sign of the divisor, unless they meet as decimals. -/
theorem takesSign_of_modulo (laws : decimals.Laws value) (finite : a.isFiniteNumber = true)
    (finite' : b.isFiniteNumber = true) (h : modulo decimals a b = .ok r) :
    TakesSign decimals a b r := by
  rw [modulo] at h
  split at h
  · cases h
  rename_i nonzero
  obtain ⟨x, double, finiteFloat, -⟩ := toFloat?_of_isFiniteNumber finite
  obtain ⟨y, double', finiteFloat', sign⟩ := toFloat?_of_isFiniteNumber finite'
  rw [isZero_iff double' (isNaN_of_isFinite finiteFloat')] at nonzero
  cases a with
  | integer m =>
    cases b with
    | integer n =>
      refine takesSign_integers (fun zero => nonzero ?_) h
      have signs := Option.some.inj sign
      rwa [zero, Int.sign_zero, eq_comm, Int.sign_eq_zero_iff_zero] at signs
    | float y =>
      cases double
      cases double'
      cases h
      exact takesSign_mixed laws finite (fun same => by cases same) finiteFloat finiteFloat' nonzero sign
    | _ => cases finite'
  | float x =>
    cases b with
    | integer n =>
      cases double
      cases double'
      cases h
      exact takesSign_mixed laws finite (fun same => by cases same) finiteFloat finiteFloat' nonzero sign
    | float y =>
      cases double
      cases double'
      cases h
      exact takesSign_floats finiteFloat finiteFloat' nonzero sign rfl
    | _ => cases finite'
  | _ => cases finite

end Numbers

end Value

namespace Expr

/-- The remainder of two finite numbers is zero or has the sign of the divisor, and if an integer and a
double meet as decimals, that of the dividend. -/
theorem eval_modulo_sign {platform : Platform} {number : platform.decimals.Number → ℚ}
    (laws : platform.decimals.Laws number) {input : Value} {l r : Expr} {a b v : Value}
    (left : l.eval platform input = .ok a) (right : r.eval platform input = .ok b)
    (finite : a.isFiniteNumber = true) (finite' : b.isFiniteNumber = true)
    (result : (binary .modulo l r).eval platform input = .ok v) :
    Value.TakesSign platform.decimals a b v := by
  rw [eval_binary (by decide) (by decide) left right, Operator.apply] at result
  exact Value.takesSign_of_modulo laws finite finite' result

theorem eval_modulo_sign_doubles :
    Value.TakesSign Decimal.library (.float (Binary64.ofInt (-7))) (.float (Binary64.ofInt 2))
      (.float (Value.NumberRule.moduloFloats (Binary64.ofInt (-7)) (Binary64.ofInt 2))) := by
  have nonzero : Value.isZero (.float (Binary64.ofInt 2)) = false := by decide +kernel
  refine @eval_modulo_sign (.reference ⟨0, 0, 0⟩) Decimal.value Decimal.laws .null
    (float (Binary64.ofInt (-7))) (float (Binary64.ofInt 2)) _ _ _ rfl rfl (by decide +kernel)
    (by decide +kernel) ?_
  rw [eval_binary (by decide) (by decide) rfl rfl, Operator.apply, Value.modulo_floats nonzero]

/-- The remainder of minus seven by two is one as integers and as doubles, but negative if only the
divisor is a double. -/
theorem eval_modulo_sign_mixed :
    ∃ v, (binary .modulo (negate (integer 7)) (float (Binary64.ofInt 2))).eval (.reference ⟨0, 0, 0⟩)
        .null = .ok v ∧
      v.sign? = some (-1) ∧ (Value.float (Binary64.ofInt 2)).sign? = some 1 := by
  have dividend : (negate (integer 7)).eval (.reference ⟨0, 0, 0⟩) .null = .ok (.integer (-7)) := by
    rfl
  have negative : (Value.modulo Decimal.library (.integer (-7))
      (.float (Binary64.ofInt 2))).toOption.bind Value.sign? = some (-1) := by decide +kernel
  rw [eval_binary (by decide) (by decide) dividend rfl, Operator.apply]
  change ∃ v, Value.modulo Decimal.library (.integer (-7)) (.float (Binary64.ofInt 2)) = .ok v ∧ _
  cases result : Value.modulo Decimal.library (.integer (-7)) (.float (Binary64.ofInt 2)) with
  | error e =>
    rw [result] at negative
    cases negative
  | ok v =>
    rw [result] at negative
    exact ⟨v, rfl, negative, by decide +kernel⟩

end Expr

end RecordPipeline
