import RecordPipeline.Value.Sorting

/-!
Insertion as a stable sort. Each item in its turn is moved back past the larger ones, the largest of
which stands first in the list that is held.
-/

namespace RecordPipeline

namespace Sorting

variable {n : Nat}

/-- Moves an item back to its place among those that are held. -/
def place (i : Fin n) : List (Fin n) → (List (Fin n) → Sorting n) → Sorting n
  | [], next => next [i]
  | last :: earlier, next =>
    if apart : i ≠ last then
      .compare i last apart fun answer =>
        if answer = .lt then place i earlier fun held => next (last :: held)
        else next (i :: last :: earlier)
    else next (i :: last :: earlier)

def insertAll : List (Fin n) → List (Fin n) → Sorting n
  | held, [] => .done held.reverse
  | held, i :: later => place i held fun held => insertAll held later

def insertion (n : Nat) : Sorting n :=
  insertAll [] (List.finRange n)

def Before (answer : Fin n → Fin n → Ordering) (i j : Fin n) : Prop :=
  answer i j = .lt ∨ (answer i j = .eq ∧ i < j)

section Order

variable {answer : Fin n → Fin n → Ordering} [Std.TransCmp answer] {i j k : Fin n}
  {held : List (Fin n)}

theorem Before.trans (first : Before answer i j) (second : Before answer j k) : Before answer i k := by
  rcases first with less | ⟨equal, earlier⟩
  · rcases second with less' | ⟨equal', -⟩
    · exact .inl (Std.TransCmp.lt_trans less less')
    · exact .inl (Std.TransCmp.lt_of_lt_of_eq less equal')
  · rcases second with less' | ⟨equal', later⟩
    · exact .inl (Std.TransCmp.lt_of_eq_of_lt equal less')
    · exact .inr ⟨Std.TransCmp.eq_trans equal equal', Fin.lt_trans earlier later⟩

theorem before_of_not_lt (later : j < i) (h : answer i j ≠ .lt) : Before answer j i := by
  have swapped : answer j i = (answer i j).swap := Std.OrientedCmp.eq_swap
  cases found : answer i j with
  | lt => exact absurd found h
  | eq => exact .inr ⟨by rw [swapped, found]; rfl, later⟩
  | gt => exact .inl (by rw [swapped, found]; rfl)

theorem run_place (later : ∀ j ∈ held, j < i)
    (sorted : held.Pairwise fun a b => Before answer b a) (next : List (Fin n) → Sorting n) :
    ∃ held', (place i held next).run answer = (next held').run answer ∧ held'.Perm (i :: held) ∧
      held'.Pairwise fun a b => Before answer b a := by
  induction held generalizing next with
  | nil => exact ⟨[i], rfl, .rfl, List.pairwise_singleton ..⟩
  | cons last earlier ih =>
    obtain ⟨below, sorted'⟩ := List.pairwise_cons.1 sorted
    have lastLater := later last (List.mem_cons_self ..)
    rw [place, dif_pos (Fin.ne_of_gt lastLater), run]
    split
    · rename_i less
      obtain ⟨held', run, perm, ordered⟩ :=
        ih (fun j member => later j (List.mem_cons_of_mem _ member)) sorted' fun held => next (last :: held)
      refine ⟨last :: held', run, (perm.cons last).trans (List.Perm.swap ..),
        List.pairwise_cons.2 ⟨fun j member => ?_, ordered⟩⟩
      rcases List.mem_cons.1 (perm.mem_iff.1 member) with rfl | member
      · exact .inl less
      · exact below j member
    · rename_i stays
      have before := before_of_not_lt lastLater stays
      refine ⟨i :: last :: earlier, rfl, .rfl, List.pairwise_cons.2 ⟨fun j member => ?_, sorted⟩⟩
      rcases List.mem_cons.1 member with rfl | member
      · exact before
      · exact (below j member).trans before

theorem run_insertAll {items : List (Fin n)}
    (later : ∀ i ∈ items, ∀ j ∈ held, j < i) (apart : items.Pairwise (· < ·))
    (sorted : held.Pairwise fun a b => Before answer b a) :
    ∃ order, (insertAll held items).run answer = some order ∧ order.Perm (items ++ held) ∧
      order.Pairwise (Before answer) := by
  induction items generalizing held with
  | nil => exact ⟨held.reverse, rfl, List.reverse_perm held, List.pairwise_reverse.2 sorted⟩
  | cons i rest ih =>
    obtain ⟨least, apart⟩ := List.pairwise_cons.1 apart
    obtain ⟨held', run, perm, sorted'⟩ := run_place (later i (List.mem_cons_self ..)) sorted
      fun held => insertAll held rest
    have later' : ∀ k ∈ rest, ∀ j ∈ held', j < k := by
      intro k member j inside
      rcases List.mem_cons.1 (perm.mem_iff.1 inside) with rfl | inside
      · exact least k member
      · exact later k (List.mem_cons_of_mem _ member) j inside
    obtain ⟨order, runs, perm', ordered⟩ := ih later' apart sorted'
    refine ⟨order, run.trans runs, perm'.trans ((perm.append_left rest).trans List.perm_middle), ordered⟩

end Order

theorem insertion_sorts (n : Nat) (answer : Fin n → Fin n → Ordering)
    (order : Std.TransCmp answer) :
    ∃ order, (insertion n).run answer = some order ∧ Sorts answer order := by
  have none : ∀ i ∈ List.finRange n, ∀ j ∈ ([] : List (Fin n)), j < i := by simp
  obtain ⟨order, run, perm, ordered⟩ :=
    run_insertAll none (List.pairwise_lt_finRange n) (List.Pairwise.nil (R := fun a b => Before answer b a))
  exact ⟨order, run, by simpa using perm, ordered⟩

end Sorting

def StableSort.insertion : StableSort :=
  ⟨Sorting.insertion, Sorting.insertion_sorts⟩

end RecordPipeline
