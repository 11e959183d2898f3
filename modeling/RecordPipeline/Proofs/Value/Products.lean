import RecordPipeline.Proofs.Value.Remainder

/-!
Products of an integer and a double. They meet as decimals, and a double that is nothing as a decimal
makes nothing of the integer; where decimals have no room the doubles decide.
-/

namespace RecordPipeline

open Binary64 (steps isFinite isNegative stepsPerOne)
open DecimalLibrary (unit Rounded)

namespace Value

/-- A value that has the sign of the product as doubles, if the double is as large as a unit in the last
place of a decimal, and is zero, if the double is less than half of that. In between it is the one or
the other. -/
structure MixedProduct (n : Int64) (f : Float) (v : Value) : Prop where
  kept : unit ≤ |Binary64.exact f| → v.sign? = some (steps (Binary64.ofInt n.toInt * f)).sign
  lost : 2 * |Binary64.exact f| < unit → v = integer 0
  between : v = integer 0 ∨ v.sign? = some (steps (Binary64.ofInt n.toInt * f)).sign

theorem sign_steps_mul {x y : Float} (finite : isFinite x = true) (finite' : isFinite y = true)
    (nonzero : steps x ≠ 0) (nonzero' : steps y ≠ 0) (product : steps (x * y) ≠ 0) :
    (steps (x * y)).sign = (steps x).sign * (steps y).sign := by
  have near := Binary64.mul_eq_ofRatio finite finite'
  have sign : isNegative (x * y) = (isNegative x != isNegative y) := by
    rw [near, Binary64.ofRatio, Binary64.isNegative_ofMagnitude (Binary64.nearestMagnitude_le ..)]
  rw [Binary64.sign_steps product, Binary64.sign_steps nonzero, Binary64.sign_steps nonzero', sign]
  cases isNegative x <;> cases isNegative y <;> rfl

structure Factors (n : Int64) (f : Float) : Prop where
  nonzero : n.toInt ≠ 0
  finite : isFinite f = true
  filled : steps f ≠ 0
  bounded : isFinite (Binary64.ofInt n.toInt * f) = true
  product : steps (Binary64.ofInt n.toInt * f) ≠ 0

section Products

variable {decimals : DecimalLibrary} {value : decimals.Number → ℚ} {n : Int64} {f : Float} {v : Value}
  {d e : decimals.Number}

theorem Factors.sign_product (factors : Factors n f) :
    (steps (Binary64.ofInt n.toInt * f)).sign = n.toInt.sign * (steps f).sign := by
  have factor : (steps (Binary64.ofInt n.toInt)).sign = n.toInt.sign :=
    Binary64.sign_steps_ofInt n.toInt
  have filled : steps (Binary64.ofInt n.toInt) ≠ 0 := by
    intro none
    rw [none, eq_comm, Int.sign_zero, Int.sign_eq_zero_iff_zero] at factor
    exact factors.nonzero factor
  rw [sign_steps_mul (isFinite_ofInt n) factors.finite filled factors.filled factors.product, factor]

theorem Factors.mixedProduct_float (factors : Factors n f) (large : unit ≤ 2 * |Binary64.exact f|) :
    MixedProduct n f (float (Binary64.ofInt n.toInt * f)) := by
  have sign : sign? (float (Binary64.ofInt n.toInt * f)) =
      some (steps (Binary64.ofInt n.toInt * f)).sign := sign?_float (isNaN_of_isFinite factors.bounded)
  exact ⟨fun _ => sign, fun small => absurd small (not_lt.2 large), .inr sign⟩

theorem ofDecimal?_zero (laws : decimals.Laws value) (zero : value d = 0) :
    ofDecimal? decimals d = some (integer 0) := by
  have same : value d = (0 : ℤ) := by rw [zero, Int.cast_zero]
  rw [ofDecimal?, if_pos ((laws.isInteger d).2 ⟨0, same⟩), (laws.toInteger? d 0 same 0).2 rfl]

theorem Factors.mixedProduct_decimal (factors : Factors n f) (laws : decimals.Laws value)
    (found : decimals.ofFloat? f = some d) (rounded : Rounded (n.toInt * value d) (value e))
    (result : ofDecimal? decimals e = some v) : MixedProduct n f v := by
  have double := laws.ofFloat?_rounded f d factors.finite found
  by_cases empty : value d = 0
  · have zero : v = integer 0 := by
      rw [empty, mul_zero] at rounded
      have none : value e = 0 := by
        refine rounded.empty ?_
        rw [abs_zero, mul_zero]
        exact DecimalLibrary.unit_pos
      exact Option.some.inj (result.symm.trans (ofDecimal?_zero laws none))
    exact ⟨fun large => absurd empty (double.filled large), fun _ => zero, .inl zero⟩
  · have one : (1 : ℚ) ≤ |(n.toInt : ℚ)| := by
      rw [← Int.cast_abs]
      exact_mod_cast Int.one_le_abs factors.nonzero
    have size : unit ≤ |n.toInt * value d| := by
      rw [abs_mul]
      exact (laws.unit_le empty).trans (le_mul_of_one_le_left (abs_nonneg _) one)
    have sign : v.sign? = some (steps (Binary64.ofInt n.toInt * f)).sign := by
      rw [sign?_of_ofDecimal? laws result, rounded.sign.resolve_left (rounded.filled size), sign_mul,
        double.sign.resolve_left empty, DecimalLibrary.sign_exact, sign_intCast, factors.sign_product,
        SignType.coe_mul, Int.sign_eq_sign, Int.sign_eq_sign]
    exact ⟨fun _ => sign, fun small => absurd (double.empty small) empty, .inr sign⟩

theorem Factors.decimal_of_small (factors : Factors n f) (laws : decimals.Laws value)
    (small : 2 * |Binary64.exact f| < unit) : ∃ d, decimals.ofFloat? f = some d ∧ value d = 0 := by
  have room : |Binary64.exact f| ≤ DecimalLibrary.greatest := by
    have less : unit ≤ DecimalLibrary.greatest := by
      rw [unit, DecimalLibrary.greatest]
      norm_num
    linarith [abs_nonneg (Binary64.exact f)]
  obtain ⟨d, found⟩ := Option.isSome_iff_exists.1 (laws.ofFloat?_isSome f factors.finite room)
  exact ⟨d, found, (laws.ofFloat?_rounded f d factors.finite found).empty small⟩

theorem throughDecimals?_of_zero {a b : Value} {c : decimals.Number} (laws : decimals.Laws value)
    (first : a.toDecimal? decimals = some c) (second : b.toDecimal? decimals = some d)
    (zero : value c * value d = 0) :
    (NumberRule.multiplication decimals).throughDecimals? a b = some (integer 0) := by
  have room : |value c * value d| ≤ DecimalLibrary.greatest := by
    rw [zero, abs_zero, DecimalLibrary.greatest]
    norm_num
  obtain ⟨e, product⟩ := Option.isSome_iff_exists.1 (laws.mul_isSome c d room)
  have none : value e = 0 := by
    refine (laws.mul_rounded c d e product).empty ?_
    rw [zero, abs_zero, mul_zero]
    exact DecimalLibrary.unit_pos
  rw [NumberRule.throughDecimals?, first, second]
  change (decimals.mul c d).bind (ofDecimal? decimals) = _
  rw [product]
  exact ofDecimal?_zero laws none

/-- Whichever factor comes first, `a` and `b` have decimals where the double has one, and the product of
these is the one that counts. -/
theorem Factors.mixedProduct {a b : Value} {x y : Float} (factors : Factors n f)
    (laws : decimals.Laws value)
    (doubles : (NumberRule.multiplication decimals).floats x y = Binary64.ofInt n.toInt * f)
    (meets : ∀ d, decimals.ofFloat? f = some d → ∃ p q, a.toDecimal? decimals = some p ∧
      b.toDecimal? decimals = some q ∧ value p * value q = n.toInt * value d)
    (met : ∀ p q, a.toDecimal? decimals = some p → b.toDecimal? decimals = some q →
      ∃ d, decimals.ofFloat? f = some d) :
    MixedProduct n f ((NumberRule.multiplication decimals).mixed a b x y) := by
  rw [NumberRule.mixed]
  cases through : (NumberRule.multiplication decimals).throughDecimals? a b with
  | none =>
    rw [Option.getD_none, doubles]
    refine factors.mixedProduct_float (not_lt.1 fun small => ?_)
    obtain ⟨d, found, zero⟩ := factors.decimal_of_small laws small
    obtain ⟨p, q, first, second, same⟩ := meets d found
    rw [zero, mul_zero] at same
    rw [throughDecimals?_of_zero laws first second same] at through
    cases through
  | some v =>
    rw [NumberRule.throughDecimals?] at through
    obtain ⟨p, first, through⟩ := Option.bind_eq_some_iff.1 through
    obtain ⟨q, second, through⟩ := Option.bind_eq_some_iff.1 through
    obtain ⟨e, product, result⟩ := Option.bind_eq_some_iff.1 through
    obtain ⟨d, found⟩ := met p q first second
    obtain ⟨p', q', first', second', same⟩ := meets d found
    obtain rfl : p = p' := Option.some.inj (first.symm.trans first')
    obtain rfl : q = q' := Option.some.inj (second.symm.trans second')
    exact factors.mixedProduct_decimal laws found (same ▸ laws.mul_rounded p q e product) result

theorem Factors.mixedProduct_left (factors : Factors n f) (laws : decimals.Laws value) :
    MixedProduct n f ((NumberRule.multiplication decimals).mixed (integer n) (float f)
      (Binary64.ofInt n.toInt) f) := by
  obtain ⟨c, whole, same⟩ := laws.ofInteger? n
  exact factors.mixedProduct laws rfl (fun d found => ⟨c, d, whole, found, by rw [same]⟩)
    fun _ q _ found => ⟨q, found⟩

theorem Factors.mixedProduct_right (factors : Factors n f) (laws : decimals.Laws value) :
    MixedProduct n f ((NumberRule.multiplication decimals).mixed (float f) (integer n)
      f (Binary64.ofInt n.toInt)) := by
  obtain ⟨c, whole, same⟩ := laws.ofInteger? n
  exact factors.mixedProduct laws
    (Binary64.mul_comm_of_finite factors.finite (isFinite_ofInt n))
    (fun d found => ⟨d, c, found, whole, by rw [same, mul_comm]⟩) fun p _ found _ => ⟨p, found⟩

end Products

end Value

namespace Expr

/-- The product of an integer and a double, in any order, has the sign of the product as doubles, unless
the double is smaller than a unit in the last place of a decimal; from half of that down it is the
integer zero. -/
theorem eval_multiply_mixed {platform : Platform} {number : platform.decimals.Number → ℚ}
    (laws : platform.decimals.Laws number) {input : Value} {l r : Expr} {n : Int64} {f : Float}
    (left : l.eval platform input = .ok (.integer n)) (right : r.eval platform input = .ok (.float f))
    (nonzero : n.toInt ≠ 0) (finite : isFinite f = true) (filled : steps f ≠ 0)
    (bounded : isFinite (Binary64.ofInt n.toInt * f) = true)
    (product : steps (Binary64.ofInt n.toInt * f) ≠ 0) :
    ∀ e ∈ [binary .multiply l r, binary .multiply r l],
      ∃ v, e.eval platform input = .ok v ∧ Value.MixedProduct n f v := by
  have factors : Value.Factors n f := ⟨nonzero, finite, filled, bounded, product⟩
  rw [List.forall_mem_cons, List.forall_mem_singleton]
  constructor
  · refine ⟨_, ?_, factors.mixedProduct_left laws⟩
    rw [eval_binary (by decide) (by decide) left right]
    rfl
  · refine ⟨_, ?_, factors.mixedProduct_right laws⟩
    rw [eval_binary (by decide) (by decide) right left]
    rfl

/-- Minus three times the double of three units in the last place. -/
theorem eval_multiply_mixed_units :
    let f := Binary64.ofRatio false 3 (tenTo 28)
    (negate (integer 3)).eval (.reference ⟨0, 0, 0⟩) .null = .ok (.integer (-3)) ∧
      isFinite f = true ∧ steps f ≠ 0 ∧ unit ≤ |Binary64.exact f| ∧
      ∀ e ∈ [binary .multiply (negate (integer 3)) (float f),
          binary .multiply (float f) (negate (integer 3))],
        ∃ v, e.eval (.reference ⟨0, 0, 0⟩) .null = .ok v ∧ v.sign? = some (-1) := by
  intro f
  have left : (negate (integer 3)).eval (.reference ⟨0, 0, 0⟩) .null = .ok (.integer (-3)) := rfl
  have finite : isFinite f = true := by decide +kernel
  have filled : steps f ≠ 0 := by decide +kernel
  have large : unit ≤ |Binary64.exact f| := Decimal.unit_le_abs_iff.2 (by decide +kernel)
  have bounded : isFinite (Binary64.ofInt (-3) * f) = true := by decide +kernel
  have negative : (steps (Binary64.ofInt (-3) * f)).sign = -1 := by decide +kernel
  have product : steps (Binary64.ofInt (-3) * f) ≠ 0 := by decide +kernel
  refine ⟨left, finite, filled, large, fun e among => ?_⟩
  obtain ⟨v, result, mixed⟩ := @eval_multiply_mixed (.reference ⟨0, 0, 0⟩) Decimal.value Decimal.laws
    .null _ (float f) (-3) f left rfl (by decide) finite filled bounded product e among
  exact ⟨v, result, (mixed.kept large).trans (congrArg some negative)⟩

/-- Two times the double of 10 to the power -30 is the integer zero. -/
theorem eval_multiply_vanishing :
    let f := Binary64.ofRatio false 1 (tenTo 30)
    isFinite f = true ∧ steps f ≠ 0 ∧ isFinite (Binary64.ofInt 2 * f) = true ∧
      (steps (Binary64.ofInt 2 * f)).sign = 1 ∧
      (binary .multiply (integer 2) (float f)).eval (.reference ⟨0, 0, 0⟩) .null = .ok (.integer 0) ∧
      (binary .multiply (float f) (integer 2)).eval (.reference ⟨0, 0, 0⟩) .null = .ok (.integer 0) := by
  intro f
  have factors : Value.Factors 2 f := by constructor <;> decide +kernel
  have small : 2 * |Binary64.exact f| < unit := Decimal.abs_lt_unit_iff.2 (by decide +kernel)
  refine ⟨factors.finite, factors.filled, factors.bounded, by decide +kernel, ?_, ?_⟩
  · rw [eval_binary (by decide) (by decide) rfl rfl]
    exact congrArg Except.ok ((factors.mixedProduct_left Decimal.laws).lost small)
  · rw [eval_binary (by decide) (by decide) rfl rfl]
    exact congrArg Except.ok ((factors.mixedProduct_right Decimal.laws).lost small)

end Expr

end RecordPipeline
