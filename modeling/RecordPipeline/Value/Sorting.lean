import RecordPipeline.Value.Order

/-!
Sorting by keys. A sort is a procedure that asks how two items compare and goes on by the answer, so
what it does with keys of which some have no order depends on which pairs it asks for. Nothing is
assumed of it but that it never compares an item with itself and that it sorts stably where the
answers are those of an order.
-/

namespace RecordPipeline

/-- A sort of `n` items under way: it asks for two of them, gives their order, or panics over answers
that contradict each other. -/
inductive Sorting (n : Nat) where
  | compare (i j : Fin n) (apart : i ≠ j) (next : Ordering → Sorting n)
  | done (order : List (Fin n))
  | panic

namespace Sorting

variable {n : Nat}

def run (answer : Fin n → Fin n → Ordering) : Sorting n → Option (List (Fin n))
  | compare i j _ next => (next (answer i j)).run answer
  | done order => some order
  | panic => none

structure Sorts (answer : Fin n → Fin n → Ordering) (order : List (Fin n)) : Prop where
  perm : order.Perm (List.finRange n)
  ordered : order.Pairwise fun i j => answer i j = .lt ∨ (answer i j = .eq ∧ i < j)

end Sorting

structure StableSort where
  sorting : (n : Nat) → Sorting n
  sorts : ∀ (n : Nat) (answer : Fin n → Fin n → Ordering), Std.TransCmp answer →
    ∃ order, (sorting n).run answer = some order ∧ Sorting.Sorts answer order

inductive SortFailure where
  | unordered (pair : Value.Unordered)
  | panic
deriving DecidableEq, Repr

/-- Sorts by keys. Two keys without an order count as equal, and the first two of them are the failure
once the sort is through. -/
def Sorting.byKeys {n : Nat} (reverse : Bool) (key : Fin n → Value) :
    Option Value.Unordered → Sorting n → Except SortFailure (List (Fin n))
  | failure, compare i j _ next =>
    match Value.order? reverse (key i) (key j) with
    | some answer => byKeys reverse key failure (next answer)
    | none => byKeys reverse key (failure.or (Value.unordered reverse (key i) (key j))) (next .eq)
  | none, done order => .ok order
  | some pair, done _ => .error (.unordered pair)
  | _, panic => .error .panic

/-- Sorts by the first components; items with equal keys keep their order, in reverse too. -/
def Value.sortKeyed {α : Type} (sort : StableSort) (reverse : Bool) (items : List (Value × α)) :
    Except SortFailure (List (Value × α)) :=
  ((sort.sorting items.length).byKeys reverse (fun i => (items.get i).1) none).map
    (List.map items.get)

end RecordPipeline
