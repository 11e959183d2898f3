/-!
Powers of two and of ten, the units in which doubles and decimals count.
-/

namespace RecordPipeline

def twoTo (exponent : Nat) : Nat :=
  Nat.pow 2 exponent

def tenTo (exponent : Nat) : Nat :=
  Nat.pow 10 exponent

@[simp] theorem twoTo_zero : twoTo 0 = 1 := rfl

@[simp] theorem tenTo_zero : tenTo 0 = 1 := rfl

theorem twoTo_succ (exponent : Nat) : twoTo (exponent + 1) = 2 * twoTo exponent :=
  Nat.mul_comm _ _

theorem tenTo_succ (exponent : Nat) : tenTo (exponent + 1) = 10 * tenTo exponent :=
  Nat.mul_comm _ _

theorem twoTo_pos (exponent : Nat) : 0 < twoTo exponent := by
  induction exponent with
  | zero => decide
  | succ exponent ih => rw [twoTo_succ]; omega

theorem tenTo_pos (exponent : Nat) : 0 < tenTo exponent := by
  induction exponent with
  | zero => decide
  | succ exponent ih => rw [tenTo_succ]; omega

end RecordPipeline
