import RecordPipeline.Proofs.Value.Comparison

/-!
Arithmetic of integers gives the integer of the true result or fails for want of one. Two operations
differ at the least integer, which has no opposite: its size is the greatest integer, and it has no
remainder by minus one, where the quotient is out of range although the remainder would not be.
-/

namespace RecordPipeline

namespace Value

def IsExact (outcome : Evaluated Value) (n : Int) : Prop :=
  (∃ m : Int64, m.toInt = n ∧ outcome = .ok (.integer m)) ∨
    (∀ m : Int64, m.toInt ≠ n) ∧ ∃ error, outcome = .error error

theorem isExact_ofInt (n : Int) : IsExact (ofInt n) n := by
  rw [ofInt]
  cases found : Number.toInt64? n with
  | some m => exact .inl ⟨m, Number.toInt64?_eq_some_iff.1 found, rfl⟩
  | none =>
    refine .inr ⟨fun m value => ?_, .misuse .overflow, rfl⟩
    rw [Number.toInt64?_eq_some_iff.2 value] at found
    cases found

theorem isZero_iff {b : Value} {y : Float} (double : b.toFloat? = some y)
    (number : Binary64.isNaN y = false) : b.isZero = true ↔ Binary64.steps y = 0 := by
  rw [isZero, double]
  exact Binary64.same_zero_iff number

theorem isZero_integer {n : Int64} (nonzero : n ≠ 0) : isZero (integer n) = false := by
  rw [Bool.eq_false_iff]
  intro zero
  rw [isZero_iff rfl (Binary64.isNaN_ofInt n.toInt)] at zero
  have sign := Binary64.sign_steps_ofInt n.toInt
  rw [zero, Int.sign_zero, eq_comm, Int.sign_eq_zero_iff_zero] at sign
  exact nonzero (Int64.toInt_inj.1 sign)

theorem fmod_of_emod (a b : Int) :
    (if b < 0 ∧ a % b ≠ 0 then a % b + b else a % b) = a.fmod b := by
  rw [Int.fmod_eq_emod]
  by_cases negative : b < 0
  · by_cases divides : a % b = 0
    · rw [if_neg (by simp [divides]), if_pos (.inr (Int.dvd_of_emod_eq_zero divides)), Int.add_zero]
    · have apart : ¬(0 ≤ b ∨ b ∣ a) := by
        rintro (positive | multiple)
        · omega
        · exact divides (Int.emod_eq_zero_of_dvd multiple)
      rw [if_pos ⟨negative, divides⟩, if_neg apart]
  · rw [if_neg (fun both => negative both.1), if_pos (.inl (Int.not_lt.1 negative)), Int.add_zero]

theorem quotient_in_range {a b : Int64} (apart : ¬(a = Int64.minValue ∧ b = -1)) :
    ∃ q, Number.toInt64? (a.toInt.tdiv b.toInt) = some q := by
  have least := a.le_toInt
  have most := a.toInt_lt
  have size : (a.toInt.tdiv b.toInt).natAbs = a.toInt.natAbs / b.toInt.natAbs := Int.natAbs_tdiv ..
  have bounded : a.toInt.natAbs / b.toInt.natAbs ≤ a.toInt.natAbs := Nat.div_le_self ..
  have notBeyond : a.toInt.tdiv b.toInt ≠ 2 ^ 63 := by
    intro beyond
    have whole : a.toInt.natAbs / b.toInt.natAbs = 2 ^ 63 := by rw [← size, beyond]; rfl
    have unit : b.toInt.natAbs = 1 := by
      rcases Nat.lt_trichotomy b.toInt.natAbs 1 with none | unit | more
      · rw [Nat.lt_one_iff.1 none, Nat.div_zero] at whole
        cases whole
      · exact unit
      · have half : a.toInt.natAbs / b.toInt.natAbs ≤ a.toInt.natAbs / 2 :=
          Nat.div_le_div_left more Nat.zero_lt_two
        omega
    rcases Int.natAbs_eq b.toInt with plus | minus
    · rw [plus, unit, Int.cast_ofNat_Int, Int.tdiv_one] at beyond
      omega
    · rw [minus, unit, Int.cast_ofNat_Int, Int.tdiv_neg, Int.tdiv_one] at beyond
      have negated : b.toInt = (-1 : Int64).toInt := by rw [minus, unit]; rfl
      have lowest : a.toInt = Int64.minValue.toInt := by rw [Int64.toInt_minValue]; omega
      exact apart ⟨Int64.toInt_inj.1 lowest, Int64.toInt_inj.1 negated⟩
  refine Option.isSome_iff_exists.1 (Number.toInt64?_isSome.2 ?_)
  rw [Number.minInt, Number.maxInt]
  omega

theorem moduloIntegers_eq {a b : Int64} (apart : ¬(a = Int64.minValue ∧ b = -1)) :
    NumberRule.moduloIntegers a.toInt b.toInt = ofInt (a.toInt.fmod b.toInt) := by
  obtain ⟨q, quotient⟩ := quotient_in_range apart
  rw [NumberRule.moduloIntegers, quotient]
  exact congrArg ofInt (fmod_of_emod a.toInt b.toInt)

variable {decimals : DecimalLibrary}

theorem modulo_integers {a b : Int64} (nonzero : b ≠ 0) :
    modulo decimals (integer a) (integer b) = NumberRule.moduloIntegers a.toInt b.toInt := by
  rw [modulo, isZero_integer nonzero]
  rfl

theorem isExact_modulo {a b : Int64} (nonzero : b ≠ 0) (apart : ¬(a = Int64.minValue ∧ b = -1)) :
    IsExact (modulo decimals (integer a) (integer b)) (a.toInt.fmod b.toInt) := by
  rw [modulo_integers nonzero, moduloIntegers_eq apart]
  exact isExact_ofInt _

theorem modulo_minValue :
    modulo decimals (integer Int64.minValue) (integer (-1)) = refuse .overflow := by
  rw [modulo_integers (by decide)]
  rfl

theorem isExact_absolute {a : Int64} (bounded : a ≠ Int64.minValue) :
    IsExact (absolute (integer a)) a.toInt.natAbs := by
  have least := a.le_toInt
  have most := a.toInt_lt
  have above : a.toInt ≠ -2 ^ 63 := fun lowest => bounded (Int64.toInt_inj.1 lowest)
  have kept : max Number.minInt (min Number.maxInt (a.toInt.natAbs : Int)) = a.toInt.natAbs := by
    rw [Number.minInt, Number.maxInt]
    omega
  refine .inl ⟨Int64.ofInt a.toInt.natAbs, Int64.toInt_ofInt_of_le (by omega) (by omega), ?_⟩
  rw [absolute, Number.clampInt64, kept]

theorem absolute_minValue :
    absolute (integer Int64.minValue) = .ok (integer Int64.maxValue) := by rfl

end Value

namespace Expr

variable {platform : Platform} {input : Value} {l r : Expr} {a b : Int64}

/-- What arithmetic gives on two expressions whose values are those integers. -/
structure IntegersExact (platform : Platform) (input : Value) (l r : Expr) (a b : Int64) : Prop where
  sum : Value.IsExact ((binary .add l r).eval platform input) (a.toInt + b.toInt)
  difference : Value.IsExact ((binary .subtract l r).eval platform input) (a.toInt - b.toInt)
  product : Value.IsExact ((binary .multiply l r).eval platform input) (a.toInt * b.toInt)
  remainder : b ≠ 0 → ¬(a = Int64.minValue ∧ b = -1) →
    Value.IsExact ((binary .modulo l r).eval platform input) (a.toInt.fmod b.toInt)
  negative : Value.IsExact ((negate l).eval platform input) (-a.toInt)
  size : a ≠ Int64.minValue →
    Value.IsExact ((call (bare "abs") [l] []).eval platform input) a.toInt.natAbs
  greatest : a = Int64.minValue →
    (call (bare "abs") [l] []).eval platform input = .ok (.integer Int64.maxValue)

theorem eval_abs {v : Value} (operand : l.eval platform input = .ok v) :
    (call (bare "abs") [l] []).eval platform input = v.absolute := by
  rw [eval, evalAll, operand]
  rfl

/-- Integer arithmetic is exact or fails, but the size of the least integer is the greatest one. -/
theorem eval_integers (left : l.eval platform input = .ok (.integer a))
    (right : r.eval platform input = .ok (.integer b)) : IntegersExact platform input l r a b where
  sum := by
    rw [eval_binary (by decide) (by decide) left right]
    exact Value.isExact_ofInt _
  difference := by
    rw [eval_binary (by decide) (by decide) left right]
    exact Value.isExact_ofInt _
  product := by
    rw [eval_binary (by decide) (by decide) left right]
    exact Value.isExact_ofInt _
  remainder := by
    intro nonzero apart
    rw [eval_binary (by decide) (by decide) left right]
    exact Value.isExact_modulo nonzero apart
  negative := by
    rw [eval, left]
    exact Value.isExact_ofInt _
  size := by
    intro bounded
    rw [eval_abs left]
    exact Value.isExact_absolute bounded
  greatest := by
    rintro rfl
    rw [eval_abs left]
    exact Value.absolute_minValue

/-- Both ends of the range at once: the greatest integer against the least. -/
theorem eval_integers_extremes :
    IntegersExact (.reference ⟨0, 0, 0⟩) (.integer Int64.minValue) (integer Int64.maxValue) record
      Int64.maxValue Int64.minValue :=
  eval_integers rfl rfl

/-- Neither the size of the least integer nor its remainder by minus one is exact. -/
theorem eval_integers_not_exact :
    ¬Value.IsExact ((call (bare "abs") [record] []).eval (.reference ⟨0, 0, 0⟩) (.integer Int64.minValue))
        Int64.minValue.toInt.natAbs ∧
      ¬Value.IsExact ((binary .modulo record (negate (integer 1))).eval (.reference ⟨0, 0, 0⟩)
        (.integer Int64.minValue)) (Int64.minValue.toInt.fmod (-1)) := by
  constructor
  · rw [eval_abs rfl, Value.absolute_minValue]
    rintro (⟨m, size, found⟩ | ⟨-, error, failed⟩)
    · cases found
      exact absurd size (by decide)
    · cases failed
  · have divisor : (negate (integer 1)).eval (.reference ⟨0, 0, 0⟩) (.integer Int64.minValue) =
        .ok (.integer (-1)) := by rfl
    rw [eval_binary (by decide) (by decide) rfl divisor, Operator.apply, Value.modulo_minValue]
    rintro (⟨m, -, found⟩ | ⟨beyond, -⟩)
    · cases found
    · exact beyond 0 (by decide)

end Expr

end RecordPipeline
