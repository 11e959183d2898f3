import RecordPipeline.Stream.Stage

/-!
Places at equal distances. A slice keeps what is at every `step`-th place from its start to before
its stop. Leaving out items and counting those that are still to come finds the same places, and
asks for nothing behind the last of them.
-/

namespace RecordPipeline

namespace Slice

variable {α : Type}

def Keeps (start : Nat) (stop : Option Nat) (step place : Nat) : Prop :=
  start ≤ place ∧ (∀ n ∈ stop, place < n) ∧ step ∣ place - start

instance (start : Nat) (stop : Option Nat) (step place : Nat) :
    Decidable (Keeps start stop step place) :=
  inferInstanceAs (Decidable (_ ∧ _ ∧ _))

/-- What is at the places that a slice keeps. -/
def kept (start : Nat) (stop : Option Nat) (step : Nat) (items : List α) : List α :=
  (items.zipIdx.filter fun item => Keeps start stop step item.2).map Prod.fst

def reach (start step : Nat) : Nat → Nat
  | 0 => 0
  | count + 1 => start + count * step + 1

def size (start stop step : Nat) : Nat :=
  (List.range stop).countP fun place => Keeps start (some stop) step place

/-- Leaves out `skip` items, and `step - 1` behind every one that is kept, until no more are to be
kept. -/
def pick (step : Nat) (skip : Nat) (left : Option Nat) : List α → List α
  | [] => []
  | item :: later =>
    if left = some 0 then []
    else
      match skip with
      | 0 => item :: pick step (step - 1) (left.map (· - 1)) later
      | skip + 1 => pick step skip left later

theorem pick_cons (step skip : Nat) (left : Option Nat) (item : α) (later : List α) :
    pick step skip left (item :: later) =
      if left = some 0 then []
      else
        match skip with
        | 0 => item :: pick step (step - 1) (left.map (· - 1)) later
        | skip + 1 => pick step skip left later :=
  pick.eq_def step skip left (item :: later)

@[simp] theorem pick_nil (step skip : Nat) (left : Option Nat) :
    pick step skip left ([] : List α) = [] := rfl

theorem pick_first (count : Nat) (items : List α) : pick 1 0 (some count) items = items.take count := by
  induction items generalizing count with
  | nil => rw [pick_nil, List.take_nil]
  | cons item later ih =>
    cases count with
    | zero => rfl
    | succ count => exact congrArg (item :: ·) (ih count)

theorem pick_none_left (step skip : Nat) (items : List α) : pick step skip (some 0) items = [] := by
  cases items <;> rfl

theorem pick_drop (step skip : Nat) (items : List α) :
    pick step skip none items = pick step 0 none (items.drop skip) := by
  induction items generalizing skip with
  | nil => rw [List.drop_nil, pick_nil, pick_nil]
  | cons item later ih =>
    cases skip with
    | zero => rfl
    | succ skip => exact ih skip

variable {start step place skip : Nat} {stop : Option Nat}

theorem not_keeps (aligned : start ≤ place + skip ∧ step ∣ place + skip - start)
    (near : skip < step ∨ place + skip = start) {other : Nat} (after : place ≤ other)
    (before : other < place + skip) : ¬Keeps start stop step other := by
  rintro ⟨started, -, divides⟩
  have gap : step ∣ place + skip - other := by
    have apart := Nat.dvd_sub aligned.2 divides
    rwa [Nat.sub_sub_sub_cancel_right started] at apart
  have := Nat.le_of_dvd (by omega) gap
  omega

theorem sliceSize_eq_zero (positive : 0 < step) {place n : Nat} :
    StageKind.sliceSize place n step = 0 ↔ n ≤ place := by
  rw [StageKind.sliceSize, Nat.div_eq_zero_iff]
  omega

theorem sliceSize_step (positive : 0 < step) (place n : Nat) :
    StageKind.sliceSize (place + step) n step = StageKind.sliceSize place n step - 1 := by
  rw [StageKind.sliceSize, StageKind.sliceSize]
  rcases Nat.lt_or_ge place n with before | after
  · have shift : n - place + (step - 1) = n - (place + 1) + step := by omega
    rw [shift, Nat.add_div_right _ positive, Nat.succ_sub_one]
    rcases Nat.lt_or_ge (place + step) n with far | close
    · congr 1
      omega
    · rw [Nat.div_eq_of_lt (by omega), Nat.div_eq_of_lt (by omega)]
  · rw [Nat.div_eq_of_lt (by omega), Nat.div_eq_of_lt (by omega)]

theorem pick_eq_filter (positive : 0 < step)
    (aligned : start ≤ place + skip ∧ step ∣ place + skip - start)
    (near : skip < step ∨ place + skip = start) (items : List α) :
    pick step skip (stop.map fun n => StageKind.sliceSize (place + skip) n step) items =
      ((items.zipIdx place).filter fun item => Keeps start stop step item.2).map Prod.fst := by
  induction items generalizing place skip with
  | nil => rfl
  | cons item later ih =>
    rw [pick_cons]
    split
    · rename_i closed
      obtain ⟨n, rfl, none⟩ := Option.map_eq_some_iff.1 closed
      rw [sliceSize_eq_zero positive] at none
      have all : ∀ entry ∈ (item :: later).zipIdx place, ¬Keeps start (some n) step entry.2 := by
        intro entry member keeps
        have after := (List.mem_zipIdx member).1
        exact not_keeps aligned near after
          (Nat.lt_of_lt_of_le (keeps.2.1 n rfl) none) keeps
      rw [List.filter_eq_nil_iff.2 (by simpa using all)]
      rfl
    · rename_i open?
      rw [List.zipIdx_cons, List.filter_cons]
      cases skip with
      | zero =>
        have keeps : Keeps start stop step place := by
          refine ⟨aligned.1, fun n same => ?_, aligned.2⟩
          rw [Option.mem_def] at same
          subst same
          rw [Option.map_some, Option.some.injEq, sliceSize_eq_zero positive] at open?
          omega
        have next : place + step = place + 1 + (step - 1) := by omega
        have further : start ≤ place + step ∧ step ∣ place + step - start := by
          refine ⟨Nat.le_add_right_of_le aligned.1, ?_⟩
          rw [Nat.sub_add_comm (show start ≤ place from aligned.1)]
          exact Nat.dvd_add aligned.2 (Nat.dvd_refl step)
        have rest := ih (next ▸ further) (.inl (by omega))
        rw [← next] at rest
        simp only [keeps, decide_true, if_true, List.map_cons, ← rest]
        congr 2
        cases stop with
        | none => rfl
        | some n => simp [sliceSize_step positive]
      | succ skip =>
        have away : ¬Keeps start stop step place :=
          not_keeps aligned near (Nat.le_refl _) (by omega)
        have next : place + (skip + 1) = place + 1 + skip := by omega
        have rest := ih (next ▸ aligned) (by omega)
        rw [← next] at rest
        simp only [away, decide_false, Bool.false_eq_true, if_false]
        exact rest

/-- Counting on from item to item keeps what the places say. -/
theorem pick_eq_kept (positive : 0 < step) (items : List α) :
    pick step start (stop.map fun n => StageKind.sliceSize start n step) items =
      kept start stop step items := by
  have aligned : start ≤ 0 + start ∧ step ∣ 0 + start - start := by simp
  have all : _ = kept start stop step items :=
    pick_eq_filter positive aligned (.inr (Nat.zero_add start)) items
  rwa [Nat.zero_add] at all

theorem reach_start (positive : 0 < step) (count : Nat) :
    reach 0 step (count + 1) = reach (step - 1) step count + 1 := by
  cases count with
  | zero => simp [reach]
  | succ count =>
    simp only [reach, Nat.succ_mul]
    omega

theorem reach_skip (skip step count : Nat) :
    reach (skip + 1) step (count + 1) = reach skip step (count + 1) + 1 := by
  simp only [reach]
  omega

theorem length_pick (positive : 0 < step) {count : Nat} {items : List α}
    (long : reach skip step count ≤ items.length) :
    (pick step skip (some count) items).length = count := by
  induction items generalizing skip count with
  | nil =>
    cases count with
    | zero => rfl
    | succ count => simp [reach] at long
  | cons item later ih =>
    cases count with
    | zero => rw [pick_none_left, List.length_nil]
    | succ count =>
      rw [pick_cons, if_neg (by simp)]
      rw [List.length_cons] at long
      cases skip with
      | zero =>
        rw [reach_start positive] at long
        simpa using ih (Nat.le_of_succ_le_succ long)
      | succ skip =>
        rw [reach_skip] at long
        exact ih (Nat.le_of_succ_le_succ long)

theorem pick_take (positive : 0 < step) (count : Nat) (items : List α) :
    pick step skip (some count) (items.take (reach skip step count)) =
      pick step skip (some count) items := by
  induction items generalizing skip count with
  | nil => rw [List.take_nil]
  | cons item later ih =>
    cases count with
    | zero => rw [pick_none_left, pick_none_left]
    | succ count =>
      cases skip with
      | zero =>
        rw [reach_start positive, List.take_succ_cons, pick_cons, pick_cons]
        simp [ih]
      | succ skip =>
        rw [reach_skip, List.take_succ_cons, pick_cons, pick_cons]
        simp [ih]

theorem length_kept (items : List α) :
    (kept start stop step items).length =
      (List.range items.length).countP fun place => Keeps start stop step place := by
  have places : items.zipIdx.map Prod.snd = List.range items.length := by
    rw [List.zipIdx_map_snd, List.range_eq_range']
  rw [kept, List.length_map, ← List.countP_eq_length_filter, ← places, List.countP_map]
  rfl

theorem reach_sliceSize_le (positive : 0 < step) (stop : Nat) :
    reach start step (StageKind.sliceSize start stop step) ≤ stop := by
  cases found : StageKind.sliceSize start stop step with
  | zero => exact Nat.zero_le stop
  | succ count =>
    have some : start < stop := by
      refine Nat.lt_of_not_le fun none => ?_
      rw [(sliceSize_eq_zero positive).2 none] at found
      cases found
    have fits := Nat.div_mul_le_self (stop - start + (step - 1)) step
    rw [← StageKind.sliceSize, found, Nat.succ_mul] at fits
    rw [reach]
    omega

theorem size_eq_sliceSize (positive : 0 < step) (start stop : Nat) :
    size start stop step = StageKind.sliceSize start stop step := by
  have counted : (kept start (some stop) step (List.range stop)).length = _ := length_kept _
  rw [List.length_range] at counted
  rw [size, ← counted, ← pick_eq_kept positive]
  exact length_pick positive (by simpa using reach_sliceSize_le positive stop)

theorem length_kept_eq_size (positive : 0 < step) {n : Nat} {items : List α}
    (length : items.length = reach start step (size start n step)) :
    (kept start (some n) step items).length = size start n step := by
  rw [size_eq_sliceSize positive] at length ⊢
  rw [← pick_eq_kept positive]
  exact length_pick positive (Nat.le_of_eq length.symm)

theorem kept_take (positive : 0 < step) (n : Nat) (items : List α) :
    kept start (some n) step (items.take (reach start step (size start n step))) =
      kept start (some n) step items := by
  rw [size_eq_sliceSize positive, ← pick_eq_kept positive, ← pick_eq_kept positive]
  exact pick_take positive _ items

/-- How many items a slice asks for, if it does not ask for all: those up to the last one it keeps. -/
def needs (step skip : Nat) (left : Option Nat) : Option Nat :=
  left.map (reach skip step)

theorem needs_first (count : Nat) : needs 1 0 (some count) = some count := by
  cases count <;> simp [needs, reach]

theorem needs_zero (positive : 0 < step) {left : Option Nat} (open? : left ≠ some 0) :
    needs step 0 left = (needs step (step - 1) (left.map (· - 1))).map (· + 1) := by
  match left with
  | none => rfl
  | some 0 => exact absurd rfl open?
  | some (count + 1) => exact congrArg some (reach_start positive count)

theorem needs_succ {left : Option Nat} (open? : left ≠ some 0) :
    needs step (skip + 1) left = (needs step skip left).map (· + 1) := by
  match left with
  | none => rfl
  | some 0 => exact absurd rfl open?
  | some (count + 1) => exact congrArg some (reach_skip skip step count)

theorem needs_ne_zero {left : Option Nat} (open? : left ≠ some 0) : needs step skip left ≠ some 0 := by
  match left with
  | none => simp [needs]
  | some 0 => exact absurd rfl open?
  | some (count + 1) => simp [needs, reach]

end Slice

end RecordPipeline
