import RecordPipeline.Proofs.Stream.Causality

/-!
Slices of pipelines. Behind any pipeline a slice gives the items at the places that it keeps, errors
among them, each as soon as the pipeline gives it, and the end comes with the last of them.
-/

namespace RecordPipeline

namespace Records

variable {origin : Source} {r : Records}

def Maps : Records → Prop
  | source _ => True
  | adapted (.map f) inner => (∀ v, Item.panic? (f v) = none) ∧ inner.Maps
  | _ => False

theorem next_maps {record : Value} (maps : r.Maps) (found : origin r.taken = some record) :
    ∃ item r', r.next origin = some (some item, r') ∧ item.panic? = none ∧ r'.taken = r.taken + 1 ∧
      r'.Maps := by
  induction r with
  | source taken => exact ⟨_, _, next_of_answers (.record found), rfl, rfl, trivial⟩
  | once e? => exact maps.elim
  | adapted a inner ih =>
    cases a with
    | map f =>
      obtain ⟨calm, behind⟩ := maps
      obtain ⟨item, inner', front, calmFront, taken, behind'⟩ := ih behind found
      cases item with
      | ok v => exact ⟨f v, _, next_answer rfl front rfl, calm v, taken, calm, behind'⟩
      | error e =>
        exact ⟨_, _, next_answer rfl front (Adaptor.react_error calmFront _), calmFront, taken, calm,
          behind'⟩
    | _ => exact maps.elim

theorem begins_maps {n : Nat} (maps : r.Maps)
    (supply : ∀ place < n, (origin (r.taken + place)).isSome) :
    ∃ input, r.Begins origin input ∧ input.length = n ∧ r.takenWith input = r.taken + n := by
  induction n generalizing r with
  | zero => exact ⟨[], begins_nil, rfl, rfl⟩
  | succ n ih =>
    obtain ⟨record, found⟩ := Option.isSome_iff_exists.1 (supply 0 (Nat.zero_lt_succ n))
    obtain ⟨item, r', given, calm, taken, maps'⟩ := next_maps maps found
    have later (place) (before : place < n) : (origin (r'.taken + place)).isSome := by
      rw [taken, Nat.add_assoc, Nat.add_comm 1]
      exact supply (place + 1) (Nat.succ_lt_succ before)
    obtain ⟨input, begins, length, takenInput⟩ := ih maps' later
    refine ⟨(item, r'.taken) :: input, begins_cons.2 ⟨r', given, calm, rfl, begins⟩, ?_, ?_⟩
    · rw [List.length_cons, length]
    · rw [takenWith_cons (show r'.taken = _ from rfl), takenInput, taken]
      omega

end Records

def Value.Counts (v : Value) (n : Nat) : Prop :=
  ∃ m, v.toInt? = some m ∧ m.toInt = n

def Value.Stops (v : Value) : Option Nat → Prop
  | none => v = .null
  | some n => v.Counts n

namespace StageKind

variable {kind : StageKind} {v : Value}

theorem count_of_counts {n : Nat} (h : v.Counts n) : kind.count v = .ok n := by
  obtain ⟨m, found, same⟩ := h
  simp [count, found, same]

theorem openCount_of_counts {n : Nat} (h : v.Counts n) : kind.openCount v = .ok (some n) := by
  rw [openCount, count_of_counts h]
  · rfl
  · rintro rfl
    obtain ⟨m, none, -⟩ := h
    cases none

theorem openCount_of_stops {n? : Option Nat} (h : v.Stops n?) : kind.openCount v = .ok n? := by
  cases n? with
  | none =>
    obtain rfl : v = .null := h
    rfl
  | some n => exact openCount_of_counts h

end StageKind

def Stage.islice (start stop step : Expr) : Stage :=
  .call ⟨StageKind.islice.name, ⟨.tuple [start, stop, step], []⟩, []⟩

/-- What the pipeline gives when it is asked for `needed` items, or for all if no number is given, and
how many records have been taken then. -/
def Pipeline.Supplies (platform : Platform) (p : Pipeline) (origin : Source) (needed : Option Nat)
    (items : List (Item × Nat)) (k : Nat) : Prop :=
  ∃ r, p.start platform = .ok r ∧ r.Supplies origin needed items k

section Parameters

variable {platform : Platform} {e₁ e₂ e₃ : Expr} {v₁ v₂ v₃ : Value} {start step : Nat}
  {stop : Option Nat}
  (values : Expr.evalAll platform .null [e₁, e₂, e₃] = .ok [v₁, v₂, v₃])
  (starts : v₁.Counts start) (stops : v₂.Stops stop) (steps : v₃.Counts step) (positive : 0 < step)

include values starts stops steps positive

theorem Stage.islice_apply (r : Records) :
    (Stage.islice e₁ e₂ e₃).apply platform r =
      .ok (.limit (stop.map fun n => StageKind.sliceSize start n step) (.spaced step start 0 r)) := by
  have known : (Stage.islice e₁ e₂ e₃).build platform =
      Expr.evalAll platform .null [e₁, e₂, e₃] >>= StageKind.islice.sliceAdaptors := rfl
  have bounds : StageKind.islice.sliceBounds [v₁, v₂, v₃] = .ok (start, stop, step) := by
    rw [StageKind.sliceBounds, StageKind.openCount_of_counts starts,
      StageKind.openCount_of_stops stops, StageKind.openCount_of_counts steps]
    rfl
  have sliced : StageKind.islice.sliceAdaptors [v₁, v₂, v₃] =
      .ok ([.pass start 0, .pass 0 (step - 1)] ++
        (stop.map fun n => Adaptor.take (StageKind.sliceSize start n step)).toList) := by
    rw [StageKind.sliceAdaptors, bounds]
    cases stop <;> exact if_neg (Nat.ne_of_gt positive)
  have built : (Stage.islice e₁ e₂ e₃).build platform = .ok _ :=
    known.trans (except_bind_ok.2 ⟨_, values, sliced⟩)
  rw [apply, built]
  cases stop <;> rfl

namespace Pipeline

variable {p : Pipeline} {origin : Source} {items : List (Item × Nat)} {k : Nat}

theorem start_append_islice (s : Records) :
    (p.append (.islice e₁ e₂ e₃)).start platform = .ok s ↔ ∃ r, p.start platform = .ok r ∧
      s = .limit (stop.map fun n => StageKind.sliceSize start n step) (.spaced step start 0 r) := by
  rw [start_append, except_bind_ok]
  simp only [Stage.islice_apply values starts stops steps positive, Except.ok.injEq, eq_comm]

theorem yields_append_islice :
    (p.append (.islice e₁ e₂ e₃)).Yields platform origin items ↔
      ∃ input, p.Yields platform origin input ∧ items = Slice.kept start stop step input := by
  have slicing := Records.isSlicing_spaced origin step
  simp only [← Slice.pick_eq_kept positive]
  constructor
  · rintro ⟨s, started, begins⟩
    obtain ⟨r, front, rfl⟩ := (start_append_islice values starts stops steps positive s).1 started
    obtain ⟨input, given, picked⟩ := slicing.of_begins ⟨start, 0, rfl, rfl⟩ begins
    exact ⟨input, ⟨r, front, given⟩, picked⟩
  · rintro ⟨input, ⟨r, front, begins⟩, rfl⟩
    exact ⟨_, (start_append_islice values starts stops steps positive _).2 ⟨r, front, rfl⟩,
      slicing.begins ⟨start, 0, rfl, rfl⟩ begins⟩

theorem endsWith_append_islice :
    (p.append (.islice e₁ e₂ e₃)).EndsWith platform origin items k ↔
      ∃ input, items = Slice.kept start stop step input ∧
        p.Supplies platform origin (stop.map fun n => Slice.reach start step (Slice.size start n step))
          input k := by
  have slicing := Records.isSlicing_spaced origin step
  have needs : (stop.map fun n => Slice.reach start step (Slice.size start n step)) =
      Slice.needs step start (stop.map fun n => StageKind.sliceSize start n step) := by
    rw [Slice.needs, Option.map_map]
    exact Option.map_congr fun n _ => by rw [Slice.size_eq_sliceSize positive, Function.comp]
  simp only [← Slice.pick_eq_kept positive, needs]
  constructor
  · rintro ⟨s, started, finishes⟩
    obtain ⟨r, front, rfl⟩ := (start_append_islice values starts stops steps positive s).1 started
    obtain ⟨input, picked, supplies⟩ := slicing.of_finishes positive ⟨start, 0, rfl, rfl⟩ finishes
    exact ⟨input, picked, r, front, supplies⟩
  · rintro ⟨input, rfl, r, front, supplies⟩
    exact ⟨_, (start_append_islice values starts stops steps positive _).2 ⟨r, front, rfl⟩,
      slicing.finishes positive ⟨start, 0, rfl, rfl⟩ supplies⟩

end Pipeline

end Parameters

namespace Pipeline

/-- What comes out of `sliced` are the items of `p` from `start` to before `stop` that are `step`
apart. -/
structure Slices (platform : Platform) (p sliced : Pipeline) (start : Nat) (stop : Option Nat)
    (step : Nat) : Prop where
  yields : ∀ origin items, sliced.Yields platform origin items ↔
    ∃ input, p.Yields platform origin input ∧ items = Slice.kept start stop step input
  whole : ∀ origin input k, p.EndsWith platform origin input k →
    ∃ k', sliced.EndsWith platform origin (Slice.kept start stop step input) k'
  /-- The end comes when `p` has given as many items as it takes to have the last of them, or when
  it has given all its items and they are fewer. -/
  ends : ∀ origin items k, sliced.EndsWith platform origin items k ↔
    ∃ input, items = Slice.kept start stop step input ∧
      p.Supplies platform origin (stop.map fun n => Slice.reach start step (Slice.size start n step))
        input k
  filled : ∀ n ∈ stop, ∀ origin input, p.Yields platform origin input →
    input.length = Slice.reach start step (Slice.size start n step) →
    (Slice.kept start stop step input).length = Slice.size start n step ∧
      sliced.EndsWith platform origin (Slice.kept start stop step input) (takenFor input)
  /-- Where every record is one item, as many records as that are taken. -/
  taken : ∀ n ∈ stop, ∀ r, p.start platform = .ok r → r.Maps → ∀ origin : Source,
    (∀ place < Slice.reach start step (Slice.size start n step), (origin place).isSome) →
    ∃ items, items.length = Slice.size start n step ∧
      sliced.EndsWith platform origin items (Slice.reach start step (Slice.size start n step))

variable {platform : Platform} {e₁ e₂ e₃ : Expr} {v₁ v₂ v₃ : Value} {start step : Nat}
  {stop : Option Nat} {p sliced : Pipeline}

theorem exists_endsWith_kept (positive : 0 < step)
    (ends : ∀ origin items k, sliced.EndsWith platform origin items k ↔
      ∃ input, items = Slice.kept start stop step input ∧
        p.Supplies platform origin (stop.map fun n => Slice.reach start step (Slice.size start n step))
          input k)
    {origin : Source} {input : List (Item × Nat)} {k : Nat}
    (finishes : p.EndsWith platform origin input k) :
    ∃ k', sliced.EndsWith platform origin (Slice.kept start stop step input) k' := by
  obtain ⟨r, front, finishes⟩ := finishes
  cases stop with
  | none => exact ⟨k, (ends ..).2 ⟨input, rfl, r, front, .inl ⟨nofun, finishes⟩⟩⟩
  | some n =>
    obtain ⟨k', supplies⟩ := finishes.exists_supplies (Slice.reach start step (Slice.size start n step))
    exact ⟨k', (ends ..).2 ⟨_, (Slice.kept_take positive n input).symm, r, front, supplies⟩⟩

/-- A slice with a start, a stop and a step gives the items between them, and takes none behind the
last of these. -/
theorem slices_append (values : Expr.evalAll platform .null [e₁, e₂, e₃] = .ok [v₁, v₂, v₃])
    (starts : v₁.Counts start) (stops : v₂.Stops stop) (steps : v₃.Counts step)
    (positive : 0 < step) (p : Pipeline) :
    p.Slices platform (p.append (.islice e₁ e₂ e₃)) start stop step := by
  have ends (origin items k) : (p.append (.islice e₁ e₂ e₃)).EndsWith platform origin items k ↔ _ :=
    endsWith_append_islice values starts stops steps positive
  have filled : ∀ n ∈ stop, ∀ origin input, p.Yields platform origin input →
      input.length = Slice.reach start step (Slice.size start n step) →
      (Slice.kept start stop step input).length = Slice.size start n step ∧
        (p.append (.islice e₁ e₂ e₃)).EndsWith platform origin (Slice.kept start stop step input)
          (takenFor input) := by
    rintro n rfl origin input ⟨r, front, begins⟩ length
    exact ⟨Slice.length_kept_eq_size positive length, (ends ..).2 ⟨input, rfl, r, front,
      Records.supplies_some.2 (.inr ⟨length, begins, (takenWith_start front).symm⟩)⟩⟩
  refine ⟨fun _ _ => yields_append_islice values starts stops steps positive,
    fun _ _ _ => exists_endsWith_kept positive ends, ends, filled, ?_⟩
  intro n bounded r front maps origin supply
  have none := taken_start front
  have supply' : ∀ place < Slice.reach start step (Slice.size start n step),
      (origin (r.taken + place)).isSome := by
    intro place before
    rw [none, Nat.zero_add]
    exact supply place before
  obtain ⟨input, begins, length, taken⟩ := Records.begins_maps maps supply'
  have same : takenFor input = Slice.reach start step (Slice.size start n step) := by
    rw [← takenWith_start front, taken, none, Nat.zero_add]
  obtain ⟨size, finishes⟩ := filled n bounded origin input ⟨r, front, begins⟩ length
  exact ⟨_, size, same ▸ finishes⟩

/-- Every second record of an endless source, from the second on and before the fifth, where the last
of them is an error. -/
theorem slices_append_negations :
    let p : Pipeline := ⟨[.call ⟨"map", ⟨.tuple [.negate .record], []⟩, []⟩]⟩
    let platform := Platform.reference ⟨0, 0, 0⟩
    let origin : Source := fun place => some (if place = 3 then .null else .integer (.ofNat place))
    Expr.evalAll platform .null [.integer 1, .integer 4, .integer 2] =
        .ok [.integer 1, .integer 4, .integer 2] ∧
    (Value.integer 1).Counts 1 ∧ (Value.integer 4).Stops (some 4) ∧ (Value.integer 2).Counts 2 ∧
    0 < 2 ∧
    (p.append (.islice (.integer 1) (.integer 4) (.integer 2))).EndsWith platform origin
      [(.ok (.integer (-1)), 2), (Value.null.negate, 4)] 4 := by
  intro p platform origin
  have values : Expr.evalAll platform .null [.integer 1, .integer 4, .integer 2] =
      .ok [.integer 1, .integer 4, .integer 2] := rfl
  have start : (Value.integer 1).Counts 1 := ⟨1, rfl, rfl⟩
  have stop : (Value.integer 4).Stops (some 4) := ⟨4, rfl, rfl⟩
  have step : (Value.integer 2).Counts 2 := ⟨2, rfl, rfl⟩
  let negations (taken : Nat) : Records := .adapted (.map Value.negate) (.source taken)
  have started : p.start platform = .ok (negations 0) := rfl
  have next (taken : Nat) (record : Value) (found : origin taken = some record) :
      (negations taken).next origin = some (some record.negate, negations (taken + 1)) :=
    Records.next_of_answers (.answer rfl (.record found) rfl)
  have begins : p.Yields platform origin
      [(.ok (.integer 0), 1), (.ok (.integer (-1)), 2), (.ok (.integer (-2)), 3),
        (Value.null.negate, 4)] :=
    ⟨_, started, Records.begins_cons.2 ⟨_, next 0 _ rfl, rfl, rfl, Records.begins_cons.2 ⟨_, next 1 _ rfl,
      rfl, rfl, Records.begins_cons.2 ⟨_, next 2 _ rfl, rfl, rfl, Records.begins_cons.2 ⟨_, next 3 _ rfl,
        rfl, rfl, Records.begins_nil⟩⟩⟩⟩⟩
  have slices := slices_append values start stop step (by decide) p
  exact ⟨values, start, stop, step, by decide, (slices.filled 4 rfl origin _ begins rfl).2⟩

end Pipeline

end RecordPipeline
