/-!
Rounding a quotient of natural numbers to the nearest whole number. The two rules differ on a
remainder of exactly one half: it goes to the even neighbour, or up.
-/

namespace RecordPipeline

def roundHalfEven (num den : Nat) : Nat :=
  let quotient := num / den
  let twice := 2 * (num % den)
  if twice < den ∨ (twice = den ∧ quotient % 2 = 0) then quotient else quotient + 1

def roundHalfUp (num den : Nat) : Nat :=
  if 2 * (num % den) < den then num / den else num / den + 1

theorem roundHalfEven_mul {den : Nat} (h : 0 < den) (quotient : Nat) :
    roundHalfEven (quotient * den) den = quotient := by
  simp [roundHalfEven, Nat.mul_div_cancel _ h, h]

end RecordPipeline
