/-!
Sets of code points, written as the increasing list of the points where membership changes:
`[a, b, c, d]` is everything from `a` to below `b` and from `c` to below `d`.
-/

namespace RecordPipeline.Text

def liesIn (bounds : List Nat) (point : Nat) : Bool :=
  match bounds with
  | [] => false
  | bound :: later => if point < bound then false else !liesIn later point

@[simp] theorem liesIn_nil (point : Nat) : liesIn [] point = false := rfl

theorem liesIn_of_lt {bound point : Nat} {later : List Nat} (h : point < bound) :
    liesIn (bound :: later) point = false := by
  simp [liesIn, h]

end RecordPipeline.Text
