import RecordPipeline.Number.Decimal
import RecordPipeline.Proofs.Number.Addition

/-!
Signs of doubles, zeros included. Whatever is rounded keeps the sign that it was rounded with, so
sums of one sign have it, and products and quotients have the product of the signs. A decimal is
turned into a double of its own sign.
-/

namespace RecordPipeline.Binary64

open Float.Model Float.Model.UnpackedFloat

def Signed (negative : Bool) (x : Float) : Prop :=
  ∃ bits ≤ infinityBits, x = ofMagnitude negative bits

section Rules

variable {negative : Bool} {x y : Float}

theorem Signed.isNaN_eq (h : Signed negative x) : isNaN x = false := by
  obtain ⟨bits, bounded, rfl⟩ := h
  rw [isNaN, magnitude_ofMagnitude bounded]
  exact decide_eq_false (Nat.not_lt.2 bounded)

theorem Signed.isNegative_eq (h : Signed negative x) : isNegative x = negative := by
  obtain ⟨bits, bounded, rfl⟩ := h
  exact isNegative_ofMagnitude bounded

theorem signed_ofInt (n : Int) : Signed (decide (n < 0)) (ofInt n) :=
  ⟨nearestMagnitude n.natAbs 1, nearestMagnitude_le .., rfl⟩

theorem signed_zero : Signed negative (ofParts (.zero (signOf negative))) :=
  ⟨0, Nat.zero_le _, ofParts_zero⟩

theorem signed_infinity : Signed negative (ofParts (.infinity (signOf negative))) :=
  ⟨infinityBits, Nat.le_refl _, ofParts_infinity⟩

theorem signed_finite {m : Nat} {e : Int} (pos : 0 < m) :
    Signed negative (ofParts (.finite (signOf negative) m e pos)) :=
  exists_ofParts_finite pos

theorem signed_roundWithAccuracy (m : Nat) (e : Int) (accuracy : Accuracy) :
    Signed negative (ofParts (roundWithAccuracy .binary64 (signOf negative) m e accuracy)) := by
  rw [roundWithAccuracy_eq, settle]
  dsimp only
  split
  · exact signed_zero
  · exact signed_finite _

theorem signed_round (m : Nat) (e : Int) :
    Signed negative (ofParts (UnpackedFloat.round .binary64 (signOf negative) m e)) :=
  signed_roundWithAccuracy _ _ _

inductive PartsSigned (negative : Bool) : UnpackedFloat → Prop where
  | zero : PartsSigned negative (.zero (signOf negative))
  | infinity : PartsSigned negative (.infinity (signOf negative))
  | finite {m : Nat} {e : Int} (pos : 0 < m) :
      PartsSigned negative (.finite (signOf negative) m e pos)

theorem Signed.parts (h : Signed negative x) : PartsSigned negative (parts x) := by
  have sign := h.isNegative_eq
  obtain ⟨bits, bounded, same⟩ := h
  have size : magnitude x = bits := by rw [same, magnitude_ofMagnitude bounded]
  rcases Nat.eq_zero_or_pos bits with rfl | pos
  · rw [parts_zero size, sign]
    exact .zero
  rcases Nat.lt_or_eq_of_le bounded with finite | infinite
  · rw [parts_finite (size ▸ pos) (size ▸ finite), sign]
    exact .finite _
  · rw [parts_infinity (size.trans infinite), sign]
    exact .infinity

theorem signOf_mul (negative other : Bool) :
    signOf negative * signOf other = signOf (negative != other) := by
  cases negative <;> cases other <;> rfl

theorem signOf_div (negative other : Bool) :
    signOf negative / signOf other = signOf (negative != other) := by
  cases negative <;> cases other <;> rfl

theorem signed_normalize {m k : Nat} (pos : 0 < m) (e : Int) (s : Sign) :
    Signed negative (ofParts (UnpackedFloat.normalize .binary64
      ((signOf negative).apply m + (signOf negative).apply k) e s)) := by
  rw [UnpackedFloat.normalize]
  cases negative with
  | true =>
    have below : (signOf true).apply (m : Int) + (signOf true).apply (k : Int) < 0 := by
      simp only [signOf, if_pos, Sign.apply]
      omega
    rw [Int.compare_eq_lt.2 below]
    exact @signed_round true _ _
  | false =>
    have above : 0 < (signOf false).apply (m : Int) + (signOf false).apply (k : Int) := by
      simp only [signOf, Bool.false_eq_true, if_false, Sign.apply]
      omega
    rw [Int.compare_eq_gt.2 above]
    exact @signed_round false _ _

theorem Signed.add (first : Signed negative x) (second : Signed negative y) :
    Signed negative (x + y) := by
  have same : (signOf negative == signOf negative) = true := by cases negative <;> rfl
  have left := first.parts
  have right := second.parts
  rw [add_eq_ofParts]
  generalize Binary64.parts x = u at left ⊢
  generalize Binary64.parts y = v at right ⊢
  cases left with
  | zero =>
    cases right with
    | zero =>
      rw [UnpackedFloat.add, if_pos same]
      exact signed_zero
    | infinity => exact signed_infinity
    | finite pos => exact signed_finite pos
  | infinity =>
    cases right with
    | zero => exact signed_infinity
    | infinity =>
      rw [UnpackedFloat.add, if_pos same]
      exact signed_infinity
    | finite pos => exact signed_infinity
  | finite pos =>
    cases right with
    | zero => exact signed_finite pos
    | infinity => exact signed_infinity
    | finite pos' =>
      rw [UnpackedFloat.add]
      exact signed_normalize (by rw [Nat.shiftLeft_eq]; exact Nat.mul_pos pos (twoTo_pos _)) _ _

variable {other : Bool}

structure Scales (negative : Bool) (x : Float) : Prop where
  positive : 0 < magnitude x
  finite : magnitude x < infinityBits
  sign : isNegative x = negative

theorem Signed.mul (first : Signed negative x) (second : Scales other y) :
    Signed (negative != other) (x * y) := by
  have left := first.parts
  have right := parts_finite second.positive second.finite
  rw [mul_eq_ofParts, right, second.sign]
  generalize Binary64.parts x = u at left ⊢
  cases left with
  | zero =>
    rw [UnpackedFloat.mul, signOf_mul]
    exact signed_zero
  | infinity =>
    rw [UnpackedFloat.mul, signOf_mul]
    exact signed_infinity
  | finite pos =>
    rw [UnpackedFloat.mul, signOf_mul]
    exact signed_roundWithAccuracy _ _ _

theorem Signed.div (first : Signed negative x) (second : Scales other y) :
    Signed (negative != other) (x / y) := by
  have left := first.parts
  have right := parts_finite second.positive second.finite
  rw [div_eq_ofParts, right, second.sign]
  generalize Binary64.parts x = u at left ⊢
  cases left with
  | zero =>
    rw [UnpackedFloat.div, signOf_div]
    exact signed_zero
  | infinity =>
    rw [UnpackedFloat.div, signOf_div]
    exact signed_infinity
  | finite pos =>
    rw [UnpackedFloat.div, signOf_div]
    exact signed_roundWithAccuracy _ _ _

theorem neg_signOf (negative : Bool) : -signOf negative = signOf (!negative) := by
  cases negative <;> rfl

theorem Signed.neg (h : Signed negative x) : Signed (!negative) (-x) := by
  have operand := h.parts
  rw [neg_eq_ofParts]
  generalize Binary64.parts x = u at operand ⊢
  cases operand with
  | zero =>
    rw [UnpackedFloat.neg, neg_signOf]
    exact signed_zero
  | infinity =>
    rw [UnpackedFloat.neg, neg_signOf]
    exact signed_infinity
  | finite pos =>
    rw [UnpackedFloat.neg, neg_signOf]
    exact signed_finite pos

end Rules

end RecordPipeline.Binary64
