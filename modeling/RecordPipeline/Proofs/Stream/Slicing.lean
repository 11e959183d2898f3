import RecordPipeline.Proofs.Stream.Distances
import RecordPipeline.Proofs.Stream.Pulling

/-!
Slices of a stream. Passing over items and ending after some of them gives what a slice keeps, each
item as soon as the stream gives it, and asks for nothing behind the last of them.
-/

namespace RecordPipeline

namespace Records

/-- Each `V skip left r s` stands for a slice `s` of `r` under way: `skip` items are left out before
the next one that it gives, and it ends after `left` items. -/
structure IsSlicing (origin : Source) (step : Nat)
    (V : Nat → Option Nat → Records → Records → Prop) : Prop where
  closed {skip : Nat} {r s : Records} (h : V skip (some 0) r s) :
    ∃ s', s.next origin = some (none, s') ∧ s'.taken = r.taken
  stuck {skip : Nat} {left : Option Nat} {r s : Records} (h : V skip left r s) (open? : left ≠ some 0)
    (front : r.next origin = none) : s.next origin = none
  ended {skip : Nat} {left : Option Nat} {r r' s : Records} (h : V skip left r s)
    (open? : left ≠ some 0) (front : r.next origin = some (none, r')) :
    ∃ s', s.next origin = some (none, s') ∧ s'.taken = r'.taken
  panics {skip : Nat} {left : Option Nat} {r r' s : Records} (h : V skip left r s)
    (open? : left ≠ some 0) {cause : Panic}
    (front : r.next origin = some (some (.error (.panic cause)), r')) :
    ∃ s', s.next origin = some (some (.error (.panic cause)), s')
  gives {left : Option Nat} {r r' s : Records} (h : V 0 left r s) (open? : left ≠ some 0) {item : Item}
    (front : r.next origin = some (some item, r')) (calm : item.panic? = none) :
    ∃ s', s.next origin = some (some item, s') ∧ s'.taken = r'.taken ∧
      V (step - 1) (left.map (· - 1)) r' s'
  skips {skip : Nat} {left : Option Nat} {r r' s : Records} (h : V (skip + 1) left r s)
    (open? : left ≠ some 0) {item : Item} (front : r.next origin = some (some item, r'))
    (calm : item.panic? = none) : ∃ s', s.next origin = s'.next origin ∧ V skip left r' s'

namespace IsSlicing

variable {origin : Source} {step : Nat} {V : Nat → Option Nat → Records → Records → Prop}

section Answers

variable {skip : Nat} {left : Option Nat} {r s s' : Records}
  (slicing : IsSlicing origin step V) (h : V skip left r s) (open? : left ≠ some 0)

include slicing h open?

theorem front_of_next {item? : Option Item} (given : s.next origin = some (item?, s'))
    (calm : ∀ item ∈ item?, item.panic? = none) :
    (item? = none ∧ ∃ r', r.next origin = some (none, r') ∧ s'.taken = r'.taken) ∨
      ∃ item r', r.next origin = some (some item, r') ∧ item.panic? = none := by
  match front : r.next origin with
  | none =>
    rw [slicing.stuck h open? front] at given
    cases given
  | some (none, r') =>
    obtain ⟨last, ends, taken⟩ := slicing.ended h open? front
    cases ends.symm.trans given
    exact .inl ⟨rfl, r', rfl, taken⟩
  | some (some item, r') =>
    cases panic : item.panic? with
    | none => exact .inr ⟨item, r', rfl, panic⟩
    | some cause =>
      obtain rfl := Item.eq_of_panic? panic
      obtain ⟨last, panics⟩ := slicing.panics h open? front
      cases panics.symm.trans given
      cases calm _ rfl

end Answers

variable {skip : Nat} {left : Option Nat} {r s : Records} {items : List (Item × Nat)} {k : Nat}

theorem of_begins (slicing : IsSlicing origin step V) {skip : Nat} {left : Option Nat} {r s : Records}
    {items : List (Item × Nat)} (h : V skip left r s) (begins : s.Begins origin items) :
    ∃ input, r.Begins origin input ∧ items = Slice.pick step skip left input := by
  cases items with
  | nil => exact ⟨[], begins_nil, rfl⟩
  | cons first later =>
    obtain ⟨s', given, calm, taken, rest⟩ := begins_cons.1 begins
    have open? : left ≠ some 0 := by
      rintro rfl
      obtain ⟨last, ends, -⟩ := slicing.closed h
      cases ends.symm.trans given
    obtain ⟨none, -⟩ | ⟨item, r', front, calm'⟩ :=
      slicing.front_of_next h open? given (by simpa using calm)
    · cases none
    · cases skip with
      | zero =>
        obtain ⟨s'', given', taken', h'⟩ := slicing.gives h open? front calm'
        cases given.symm.trans given'
        obtain ⟨input, begins', rfl⟩ := slicing.of_begins h' rest
        have same : first = (first.1, r'.taken) := Prod.ext rfl (taken.symm.trans taken')
        refine ⟨first :: input, begins_cons.2 ⟨r', front, calm, congrArg Prod.snd same.symm, begins'⟩, ?_⟩
        rw [Slice.pick_cons, if_neg open?]
      | succ skip =>
        obtain ⟨s'', same, h'⟩ := slicing.skips h open? front calm'
        obtain ⟨input, begins', picked⟩ := slicing.of_begins h' ((begins_congr same).1 begins)
        refine ⟨(item, r'.taken) :: input, begins_cons.2 ⟨r', front, calm', rfl, begins'⟩, ?_⟩
        rw [Slice.pick_cons, if_neg open?, picked]
-- an item that is left out leaves `items` as they are, but one fewer is to be left out then
termination_by (items.length, skip)
decreasing_by
  · subst items
    exact .left _ _ (Nat.lt_succ_self _)
  · subst items
    exact .right _ (by omega)

theorem begins (slicing : IsSlicing origin step V) {input : List (Item × Nat)} (h : V skip left r s)
    (begins : r.Begins origin input) : s.Begins origin (Slice.pick step skip left input) := by
  induction input generalizing r s skip left with
  | nil => exact begins_nil
  | cons first later ih =>
    by_cases closed : left = some 0
    · rw [closed, Slice.pick_none_left]
      exact begins_nil
    · obtain ⟨r', front, calm, taken, rest⟩ := begins_cons.1 begins
      rw [Slice.pick_cons, if_neg closed]
      cases skip with
      | zero =>
        obtain ⟨s', given, taken', h'⟩ := slicing.gives h closed front calm
        exact begins_cons.2 ⟨s', given, calm, taken'.trans taken, ih h' rest⟩
      | succ skip =>
        obtain ⟨s', same, h'⟩ := slicing.skips h closed front calm
        exact (begins_congr same).2 (ih h' rest)

theorem of_finishes (slicing : IsSlicing origin step V) (positive : 0 < step) {skip : Nat}
    {left : Option Nat} {r s : Records} {items : List (Item × Nat)} (h : V skip left r s)
    (finishes : s.Finishes origin items k) :
    ∃ input, items = Slice.pick step skip left input ∧
      r.Supplies origin (Slice.needs step skip left) input k := by
  have answers : ∃ item? s', s.next origin = some (item?, s') ∧ ∀ item ∈ item?, item.panic? = none := by
    cases items with
    | nil =>
      obtain ⟨s', given, -⟩ := finishes_nil.1 finishes
      exact ⟨none, s', given, nofun⟩
    | cons first later =>
      obtain ⟨s', given, calm, -⟩ := finishes_cons.1 finishes
      exact ⟨some first.1, s', given, by simpa using calm⟩
  obtain ⟨item?, s', given, calm⟩ := answers
  by_cases closed : left = some 0
  · subst closed
    obtain ⟨last, ends, taken⟩ := slicing.closed h
    cases items with
    | nil =>
      obtain ⟨last', ends', rfl⟩ := finishes_nil.1 finishes
      cases ends.symm.trans ends'
      exact ⟨[], rfl, supplies_zero.2 ⟨rfl, taken⟩⟩
    | cons first later =>
      obtain ⟨s', given, -⟩ := finishes_cons.1 finishes
      cases ends.symm.trans given
  · obtain ⟨rfl, r', front, taken⟩ | ⟨item, r', front, calm'⟩ :=
      slicing.front_of_next h closed given calm
    · cases items with
      | nil =>
        obtain ⟨last, ends, rfl⟩ := finishes_nil.1 finishes
        cases ends.symm.trans given
        exact ⟨[], rfl, (supplies_nil (Slice.needs_ne_zero closed)).2
          (finishes_nil.2 ⟨r', front, taken.symm⟩)⟩
      | cons first later =>
        obtain ⟨last, given', -⟩ := finishes_cons.1 finishes
        cases given.symm.trans given'
    · cases skip with
      | zero =>
        obtain ⟨s'', given', taken', h'⟩ := slicing.gives h closed front calm'
        cases items with
        | nil =>
          obtain ⟨last, ends, -⟩ := finishes_nil.1 finishes
          cases ends.symm.trans given'
        | cons first later =>
          obtain ⟨last, given'', calm'', taken, rest⟩ := finishes_cons.1 finishes
          cases given''.symm.trans given'
          obtain ⟨input, rfl, supplies⟩ := slicing.of_finishes positive h' rest
          refine ⟨first :: input, by rw [Slice.pick_cons, if_neg closed], ?_⟩
          rw [Slice.needs_zero positive closed]
          exact supplies_cons.2 ⟨r', front, calm', taken'.symm.trans taken, supplies⟩
      | succ skip =>
        obtain ⟨s'', same, h'⟩ := slicing.skips h closed front calm'
        obtain ⟨input, picked, supplies⟩ :=
          slicing.of_finishes positive h' ((finishes_congr same).1 finishes)
        refine ⟨(item, r'.taken) :: input, by rw [Slice.pick_cons, if_neg closed, picked], ?_⟩
        rw [Slice.needs_succ closed]
        exact supplies_cons.2 ⟨r', front, calm', rfl, supplies⟩
termination_by (items.length, skip)
decreasing_by
  · subst items
    exact .left _ _ (Nat.lt_succ_self _)
  · exact .right _ (by omega)

theorem finishes (slicing : IsSlicing origin step V) (positive : 0 < step)
    {input : List (Item × Nat)} (h : V skip left r s)
    (supplies : r.Supplies origin (Slice.needs step skip left) input k) :
    s.Finishes origin (Slice.pick step skip left input) k := by
  induction input generalizing r s skip left with
  | nil =>
    by_cases closed : left = some 0
    · subst closed
      obtain ⟨s', ends, taken⟩ := slicing.closed h
      exact finishes_nil.2 ⟨s', ends, taken.trans (supplies_zero.1 supplies).2.symm⟩
    · obtain ⟨r', front, taken⟩ :=
        finishes_nil.1 ((supplies_nil (Slice.needs_ne_zero closed)).1 supplies)
      obtain ⟨s', ends, taken'⟩ := slicing.ended h closed front
      exact finishes_nil.2 ⟨s', ends, taken'.trans taken⟩
  | cons first later ih =>
    by_cases closed : left = some 0
    · subst closed
      cases (supplies_zero.1 supplies).1
    · rw [Slice.pick_cons, if_neg closed]
      cases skip with
      | zero =>
        rw [Slice.needs_zero positive closed] at supplies
        obtain ⟨r', front, calm, taken, rest⟩ := supplies_cons.1 supplies
        obtain ⟨s', given, taken', h'⟩ := slicing.gives h closed front calm
        exact finishes_cons.2 ⟨s', given, calm, taken'.trans taken, ih h' rest⟩
      | succ skip =>
        rw [Slice.needs_succ closed] at supplies
        obtain ⟨r', front, calm, taken, rest⟩ := supplies_cons.1 supplies
        obtain ⟨s', same, h'⟩ := slicing.skips h closed front calm
        exact (finishes_congr same).2 (ih h' rest)

end IsSlicing

def limit (left : Option Nat) (r : Records) : Records :=
  left.elim r fun count => adapted (.take count) r

def spaced (step ahead gap : Nat) (r : Records) : Records :=
  adapted (.pass gap (step - 1)) (adapted (.pass ahead 0) r)

section Adaptors

variable {origin : Source} {r r' : Records} {item : Item} {left : Option Nat} {ahead gap step : Nat}

theorem react_take (calm : item.panic? = none) (count : Nat) :
    (Adaptor.take count).react (some item) = .answer (some item) (.take (count - 1)) := by
  cases item with
  | ok v => rfl
  | error e => exact Adaptor.react_error calm _

theorem react_pass_zero (calm : item.panic? = none) (gap : Nat) :
    (Adaptor.pass 0 gap).react (some item) = .answer (some item) (.pass gap gap) := by
  cases item with
  | ok v => rfl
  | error e => exact Adaptor.react_error calm _

theorem react_pass_succ (calm : item.panic? = none) (ahead gap : Nat) :
    (Adaptor.pass (ahead + 1) gap).react (some item) = .again (.pass ahead gap) := by
  cases item with
  | ok v => rfl
  | error e => exact Adaptor.react_error calm _

theorem next_limit_congr (open? : left ≠ some 0) (same : r.next origin = r'.next origin) :
    (limit left r).next origin = (limit left r').next origin := by
  match left with
  | none => exact same
  | some 0 => exact absurd rfl open?
  | some (count + 1) => exact next_adapted_congr rfl same

theorem isSlicing_limit (origin : Source) :
    IsSlicing origin 1 fun skip left r s => skip = 0 ∧ s = limit left r where
  closed := by
    rintro _ r _ ⟨rfl, rfl⟩
    exact ⟨_, next_ready (a := .take 0) rfl r, rfl⟩
  stuck := by
    rintro _ left r _ ⟨rfl, rfl⟩ open? front
    match left with
    | none => exact front
    | some 0 => exact absurd rfl open?
    | some (count + 1) => exact next_adapted_none rfl front
  ended := by
    rintro _ left r r' _ ⟨rfl, rfl⟩ open? front
    match left with
    | none => exact ⟨r', front, rfl⟩
    | some 0 => exact absurd rfl open?
    | some (count + 1) => exact ⟨_, next_answer rfl front rfl, rfl⟩
  panics := by
    rintro _ left r r' _ ⟨rfl, rfl⟩ open? cause front
    match left with
    | none => exact ⟨r', front⟩
    | some 0 => exact absurd rfl open?
    | some (count + 1) => exact ⟨_, next_answer rfl front rfl⟩
  gives := by
    rintro left r r' _ ⟨-, rfl⟩ open? item front calm
    match left with
    | none => exact ⟨r', front, rfl, rfl, rfl⟩
    | some 0 => exact absurd rfl open?
    | some (count + 1) => exact ⟨_, next_answer rfl front (react_take calm _), rfl, rfl, rfl⟩
  skips := by
    rintro _ _ _ _ _ ⟨skip, -⟩
    cases skip

theorem isSlicing_spaced (origin : Source) (step : Nat) :
    IsSlicing origin step fun skip left r s =>
      ∃ ahead gap, skip = ahead + gap ∧ s = limit left (spaced step ahead gap r) where
  closed := by
    rintro _ r _ ⟨ahead, gap, -, rfl⟩
    obtain ⟨s, ends, taken⟩ := (isSlicing_limit origin).closed ⟨rfl, rfl⟩
    exact ⟨s, ends, taken⟩
  stuck := by
    rintro _ left r _ ⟨ahead, gap, -, rfl⟩ open? front
    have stuck : (spaced step ahead gap r).next origin = none :=
      next_adapted_none rfl (next_adapted_none rfl front)
    exact (isSlicing_limit origin).stuck ⟨rfl, rfl⟩ open? stuck
  ended := by
    rintro _ left r r' _ ⟨ahead, gap, -, rfl⟩ open? front
    have ended : (spaced step ahead gap r).next origin = some (none, spaced step ahead gap r') :=
      next_answer rfl (next_answer rfl front rfl) rfl
    obtain ⟨s, ends, taken⟩ := (isSlicing_limit origin).ended ⟨rfl, rfl⟩ open? ended
    exact ⟨s, ends, taken⟩
  panics := by
    rintro _ left r r' _ ⟨ahead, gap, -, rfl⟩ open? cause front
    have panics : (spaced step ahead gap r).next origin =
        some (some (.error (.panic cause)), spaced step ahead gap r') :=
      next_answer rfl (next_answer rfl front rfl) rfl
    exact (isSlicing_limit origin).panics ⟨rfl, rfl⟩ open? panics
  gives := by
    rintro left r r' _ ⟨ahead, gap, none, rfl⟩ open? item front calm
    obtain ⟨rfl, rfl⟩ : ahead = 0 ∧ gap = 0 := by omega
    have given : (spaced step 0 0 r).next origin = some (some item, spaced step 0 (step - 1) r') :=
      next_answer rfl (next_answer rfl front (react_pass_zero calm 0)) (react_pass_zero calm _)
    obtain ⟨s, gives, taken, -, rfl⟩ := (isSlicing_limit origin).gives ⟨rfl, rfl⟩ open? given calm
    exact ⟨_, gives, taken, 0, step - 1, (Nat.zero_add _).symm, rfl⟩
  skips := by
    rintro skip left r r' _ ⟨ahead, gap, some, rfl⟩ open? item front calm
    cases ahead with
    | succ ahead =>
      have same : (spaced step (ahead + 1) gap r).next origin = (spaced step ahead gap r').next origin :=
        next_adapted_congr rfl (next_again rfl front (react_pass_succ calm ahead 0))
      exact ⟨_, next_limit_congr open? same, ahead, gap, by omega, rfl⟩
    | zero =>
      obtain rfl : gap = skip + 1 := by omega
      have same : (spaced step 0 (skip + 1) r).next origin = (spaced step 0 skip r').next origin :=
        next_again rfl (next_answer rfl front (react_pass_zero calm 0)) (react_pass_succ calm skip _)
      exact ⟨_, next_limit_congr open? same, 0, skip, (Nat.zero_add _).symm, rfl⟩

end Adaptors

end Records

end RecordPipeline
