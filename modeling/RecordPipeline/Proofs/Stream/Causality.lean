import RecordPipeline.Platform.Reference
import RecordPipeline.Proofs.Grammar.Steps
import RecordPipeline.Proofs.Stream.Slicing

/-!
When the items of a pipeline come out. A pipeline without a stage that gathers its records gives an
item before it knows whether another record follows, so what has come out depends on the records that
have been taken and on no others. A stage that lets the first items through gives them as they come,
and ends at the last of them.
-/

namespace RecordPipeline

namespace Adaptor

variable {a a' : Adaptor} {item? : Option Item}

def streams : Adaptor → Bool
  | gather _ _ _ | output _ => false
  | _ => true

theorem streams_ready (h : a.streams = true) (ready : a.ready? = some (item?, a')) :
    a'.streams = true := by
  cases a with
  | expand f front =>
    cases front with
    | nil => cases ready
    | cons v later =>
      cases ready
      rfl
  | take left =>
    cases left with
    | zero =>
      cases ready
      rfl
    | succ left => cases ready
  | gather _ _ _ | output _ => cases h
  | _ => cases ready

theorem streams_onRecord (h : a.streams = true) (v : Value) :
    (a.onRecord v).after.streams = true := by
  fun_cases onRecord a v <;> first | rfl | cases h

theorem streams_onError (h : a.streams = true) (e : EvalError) :
    (a.onError e).after.streams = true := by
  fun_cases onError a e <;> first | rfl | exact h

theorem onEnd_of_streams (h : a.streams = true) : a.onEnd = (none, a) := by
  cases a with
  | gather _ _ _ => cases h
  | _ => rfl

theorem streams_react (h : a.streams = true) (item? : Option Item) :
    (a.react item?).after.streams = true := by
  match item? with
  | none =>
    rw [react, onEnd_of_streams h]
    exact h
  | some (.ok v) => exact streams_onRecord h v
  | some (.error e) =>
    cases panic : Item.panic? (.error e) with
    | none =>
      rw [react_error panic]
      exact streams_onError h e
    | some cause =>
      cases Item.eq_of_panic? panic
      exact h

end Adaptor

namespace Records

variable {origin other : Source} {r r' last : Records} {items : List (Item × Nat)}

def streams : Records → Bool
  | adapted a inner => a.streams && inner.streams
  | _ => true

theorem streams_adapted {a : Adaptor} {inner : Records} :
    (adapted a inner).streams = true ↔ a.streams = true ∧ inner.streams = true := by
  rw [streams, Bool.and_eq_true]

theorem streams_of_answers {item? : Option Item} (h : Answers origin r item? r')
    (streams : r.streams = true) : r'.streams = true := by
  induction h with
  | record _ | spent _ | once _ => rfl
  | ready ready =>
    obtain ⟨here, behind⟩ := streams_adapted.1 streams
    exact streams_adapted.2 ⟨Adaptor.streams_ready here ready, behind⟩
  | @answer a a' inner inner' front? item? _ _ reacts front =>
    obtain ⟨here, behind⟩ := streams_adapted.1 streams
    have after := Adaptor.streams_react here front?
    rw [reacts] at after
    exact streams_adapted.2 ⟨after, front behind⟩
  | @again a a' inner inner' last front? item? _ _ reacts _ front later =>
    obtain ⟨here, behind⟩ := streams_adapted.1 streams
    have after := Adaptor.streams_react here front?
    rw [reacts] at after
    exact later (streams_adapted.2 ⟨after, front behind⟩)

/-- An item that comes out does so on every source that agrees as far as records have been taken. -/
theorem answers_of_agree {item? : Option Item} (h : Answers origin r item? r')
    (streams : r.streams = true) (item : item?.isSome) (agree : ∀ place < r'.taken, other place = origin place) :
    Answers other r item? r' := by
  induction h with
  | record found => exact .record ((agree _ (Nat.lt_succ_self _)).trans found)
  | spent _ => cases item
  | once e? => exact .once e?
  | ready ready => exact .ready ready
  | @answer a a' inner inner' front? item? asks given reacts front =>
    obtain ⟨here, behind⟩ := streams_adapted.1 streams
    -- behind the last record nothing comes out
    have some : front?.isSome := by
      cases front? with
      | some _ => rfl
      | none =>
        rw [Adaptor.react, Adaptor.onEnd_of_streams here] at reacts
        cases reacts
        cases item
    exact .answer asks (front behind some agree) reacts
  | @again a a' inner inner' last front? item? asks given reacts rest front later =>
    obtain ⟨here, behind⟩ := streams_adapted.1 streams
    have some : front?.isSome := by
      cases front? with
      | some _ => rfl
      | none => cases reacts
    have after := Adaptor.streams_react here front?
    rw [reacts] at after
    have before : (adapted a' inner').taken ≤ last.taken := taken_le_of_answers rest
    exact .again asks
      (front behind some fun place early => agree place (Nat.lt_of_lt_of_le early before)) reacts
      (later (streams_adapted.2 ⟨after, streams_of_answers given behind⟩) item agree)

theorem Pulls.of_agree (streams : r.streams = true) (h : Pulls origin r items last)
    (agree : ∀ place < last.taken, other place = origin place) : Pulls other r items last := by
  induction h with
  | none => exact .none
  | next given calm rest ih =>
    have given := answers_iff_next.2 given
    have agree' := answers_of_agree given streams rfl fun place before =>
      agree place (Nat.lt_of_lt_of_le before rest.taken_le)
    exact .next (answers_iff_next.1 agree') calm (ih (streams_of_answers given streams) agree)

end Records

/-- Whether stages of this kind hand on their items while more come in. -/
def StageKind.streams : StageKind → Bool
  | sorted | last | reduceList => false
  | _ => true

def Stage.streams (stage : Stage) : Bool :=
  (StageKind.ofName? stage.name).any StageKind.streams

section Stages

variable {platform : Platform} {adaptors : List Adaptor}

theorem StageKind.streams_adaptors {kind : StageKind} {i : Invocation} (h : kind.streams = true)
    (built : kind.adaptors platform i = .ok adaptors) : ∀ a ∈ adaptors, a.streams = true := by
  cases kind with
  | sorted | last | reduceList => cases h
  | map | filter | update | unique | yieldAll =>
    cases built
    exact List.forall_mem_singleton.2 rfl
  | hide =>
    obtain ⟨parameters, -, built⟩ := except_bind_ok.1 built
    cases built
    exact List.forall_mem_singleton.2 rfl
  | first =>
    obtain ⟨parameters, -, built⟩ := except_bind_ok.1 built
    obtain ⟨count, -, built⟩ := except_bind_ok.1 built
    cases built
    exact List.forall_mem_singleton.2 rfl
  | islice =>
    obtain ⟨parameters, -, built⟩ := except_bind_ok.1 built
    obtain ⟨⟨start, stop, step⟩, -, built⟩ := except_bind_ok.1 built
    dsimp only at built
    split at built
    · cases built
    · cases stop <;> cases built <;> simp [Adaptor.streams]

theorem Invocation.streams_adaptors {name : String} {i : Invocation}
    (h : (StageKind.ofName? name).any StageKind.streams = true)
    (built : i.adaptors platform name = .ok adaptors) : ∀ a ∈ adaptors, a.streams = true := by
  rw [Invocation.adaptors] at built
  split at built
  · cases built
  · split at built
    · rename_i kind found
      rw [found] at h
      exact StageKind.streams_adaptors h built
    · cases built

theorem Stage.streams_build {stage : Stage} (h : stage.streams = true)
    (built : stage.build platform = .ok adaptors) : ∀ a ∈ adaptors, a.streams = true := by
  cases stage with
  | reference name =>
    rw [build] at built
    exact Invocation.streams_adaptors h built
  | call c =>
    rw [build] at built
    split at built
    · exact Invocation.streams_adaptors h built
    · cases built

theorem Records.streams_foldl {r : Records} (streams : r.streams = true)
    (h : ∀ a ∈ adaptors, a.streams = true) :
    (adaptors.foldl (fun records a => .adapted a records) r).streams = true := by
  induction adaptors generalizing r with
  | nil => exact streams
  | cons a later ih =>
    obtain ⟨here, others⟩ := List.forall_mem_cons.1 h
    exact ih (streams_adapted.2 ⟨here, streams⟩) others

theorem Stage.streams_apply {stage : Stage} {r r' : Records} (h : stage.streams = true)
    (streams : r.streams = true) (applied : stage.apply platform r = .ok r') :
    r'.streams = true := by
  rw [apply] at applied
  split at applied
  · rename_i adaptors built
    cases applied
    exact Records.streams_foldl streams (stage.streams_build h built)
  · cases applied
  · cases applied
    rfl

theorem Records.taken_foldl (adaptors : List Adaptor) (r : Records) :
    (adaptors.foldl (fun records a => .adapted a records) r).taken = r.taken := by
  induction adaptors generalizing r with
  | nil => rfl
  | cons a later ih => exact ih (.adapted a r)

theorem Stage.taken_apply {stage : Stage} {r r' : Records} (none : r.taken = 0)
    (applied : stage.apply platform r = .ok r') : r'.taken = 0 := by
  rw [apply] at applied
  split at applied
  · cases applied
    rw [Records.taken_foldl, none]
  · cases applied
  · cases applied
    rfl

def Stage.first (e : Expr) : Stage :=
  .call ⟨StageKind.first.name, ⟨.tuple [e], []⟩, []⟩

theorem Stage.first_apply {e : Expr} {n : Nat}
    (count : (e.eval platform .null >>= StageKind.first.count) = .ok n) (r : Records) :
    (Stage.first e).apply platform r = .ok (.limit (some n) r) := by
  obtain ⟨v, value, counted⟩ := except_bind_ok.1 count
  have constants : (Callable.tuple [e]).constants platform = .ok [v] := by
    rw [Callable.constants, Callable.parts, Expr.evalAll, value]
    rfl
  have built : StageKind.first.adaptors platform ⟨.tuple [e], []⟩ = .ok [.take n] := by
    rw [StageKind.adaptors, constants]
    exact except_bind_ok.2 ⟨[v], rfl, except_bind_ok.2 ⟨n, counted, rfl⟩⟩
  have known : (Stage.first e).build platform = StageKind.first.adaptors platform ⟨.tuple [e], []⟩ := rfl
  rw [apply, known, built]
  rfl

end Stages

namespace Pipeline

variable {platform : Platform} {p : Pipeline} {origin other : Source} {items : List (Item × Nat)}
  {n k : Nat} {r : Records}

def append (p : Pipeline) (stage : Stage) : Pipeline :=
  ⟨p.stages ++ [stage]⟩

theorem start_append (platform : Platform) (p : Pipeline) (stage : Stage) :
    (p.append stage).start platform = p.start platform >>= fun r => stage.apply platform r := by
  rw [start, append, List.foldlM_append, start]
  congr 1
  funext r
  rw [List.foldlM_cons]
  cases stage.apply platform r <;> rfl

theorem start_induction {motive : Records → Prop} (h : p.start platform = .ok r)
    (source : motive (.source 0))
    (step : ∀ stage ∈ p.stages, ∀ r r', motive r → stage.apply platform r = .ok r' → motive r') :
    motive r := by
  rw [start] at h
  generalize p.stages = stages at h step
  generalize Records.source 0 = first at h source
  induction stages generalizing first with
  | nil =>
    cases h
    exact source
  | cons stage later ih =>
    rw [List.foldlM_cons] at h
    obtain ⟨here, others⟩ := List.forall_mem_cons.1 step
    obtain ⟨next, applied, rest⟩ := except_bind_ok.1 h
    exact ih others next rest (here first next source applied)

theorem taken_start (h : p.start platform = .ok r) : r.taken = 0 :=
  start_induction (motive := fun r => r.taken = 0) h rfl fun _ _ _ _ none applied => Stage.taken_apply none applied

theorem streams_start (streams : ∀ stage ∈ p.stages, stage.streams = true)
    (h : p.start platform = .ok r) : r.streams = true :=
  start_induction (motive := fun r => r.streams = true) h rfl fun stage member _ _ behind applied =>
    Stage.streams_apply (streams stage member) behind applied

/-- These are the first items that come out, each with the number of records that have been taken
when it does. -/
def Yields (platform : Platform) (p : Pipeline) (origin : Source) (items : List (Item × Nat)) : Prop :=
  ∃ r, p.start platform = .ok r ∧ r.Begins origin items

/-- Behind these items there are no more, and when that is known `k` records have been taken. -/
def EndsWith (platform : Platform) (p : Pipeline) (origin : Source) (items : List (Item × Nat))
    (k : Nat) : Prop :=
  ∃ r, p.start platform = .ok r ∧ r.Finishes origin items k

def takenFor (items : List (Item × Nat)) : Nat :=
  (items.map Prod.snd).getLastD 0

theorem takenWith_start (h : p.start platform = .ok r) : r.takenWith items = takenFor items := by
  rw [Records.takenWith, taken_start h, takenFor]

theorem start_append_first {e : Expr}
    (count : (e.eval platform .null >>= StageKind.first.count) = .ok n) (s : Records) :
    (p.append (.first e)).start platform = .ok s ↔
      ∃ r, p.start platform = .ok r ∧ s = .limit (some n) r := by
  rw [start_append, except_bind_ok]
  simp only [Stage.first_apply count, Except.ok.injEq, eq_comm]

theorem yields_append_first {e : Expr}
    (count : (e.eval platform .null >>= StageKind.first.count) = .ok n) :
    (p.append (.first e)).Yields platform origin items ↔
      items.length ≤ n ∧ p.Yields platform origin items := by
  have slicing := Records.isSlicing_limit origin
  constructor
  · rintro ⟨s, started, begins⟩
    obtain ⟨r, front, rfl⟩ := (start_append_first count s).1 started
    obtain ⟨input, given, rfl⟩ := slicing.of_begins ⟨rfl, rfl⟩ begins
    rw [Slice.pick_first]
    exact ⟨List.length_take_le n input, r, front, given.take n⟩
  · rintro ⟨few, r, started, begins⟩
    have through : (Records.limit (some n) r).Begins origin (Slice.pick 1 0 (some n) items) :=
      slicing.begins ⟨rfl, rfl⟩ begins
    rw [Slice.pick_first, List.take_of_length_le few] at through
    exact ⟨_, (start_append_first count _).2 ⟨r, started, rfl⟩, through⟩

theorem endsWith_append_first {e : Expr}
    (count : (e.eval platform .null >>= StageKind.first.count) = .ok n) :
    (p.append (.first e)).EndsWith platform origin items k ↔
      (items.length < n ∧ p.EndsWith platform origin items k) ∨
        (items.length = n ∧ p.Yields platform origin items ∧ k = takenFor items) := by
  have slicing := Records.isSlicing_limit origin
  have supplies : (p.append (.first e)).EndsWith platform origin items k ↔
      ∃ r, p.start platform = .ok r ∧ r.Supplies origin (some n) items k := by
    constructor
    · rintro ⟨s, started, finishes⟩
      obtain ⟨r, front, rfl⟩ := (start_append_first count s).1 started
      obtain ⟨input, rfl, given⟩ := slicing.of_finishes Nat.one_pos ⟨rfl, rfl⟩ finishes
      rw [Slice.needs_first] at given
      rw [Slice.pick_first, List.take_of_length_le (given.length_le n rfl)]
      exact ⟨r, front, given⟩
    · rintro ⟨r, started, given⟩
      have few : items.length ≤ n := given.length_le n rfl
      rw [← Slice.needs_first] at given
      have through := slicing.finishes Nat.one_pos ⟨rfl, rfl⟩ given
      rw [Slice.pick_first, List.take_of_length_le few] at through
      exact ⟨_, (start_append_first count _).2 ⟨r, started, rfl⟩, through⟩
  rw [supplies]
  constructor
  · rintro ⟨r, started, given⟩
    rcases Records.supplies_some.1 given with ⟨few, finishes⟩ | ⟨all, begins, rfl⟩
    · exact .inl ⟨few, r, started, finishes⟩
    · exact .inr ⟨all, ⟨r, started, begins⟩, takenWith_start started⟩
  · rintro (⟨few, r, started, finishes⟩ | ⟨all, ⟨r, started, begins⟩, rfl⟩)
    · exact ⟨r, started, Records.supplies_some.2 (.inl ⟨few, finishes⟩)⟩
    · exact ⟨r, started, Records.supplies_some.2 (.inr ⟨all, begins, (takenWith_start started).symm⟩)⟩

theorem Yields.of_agree (streams : ∀ stage ∈ p.stages, stage.streams = true)
    (h : p.Yields platform origin items)
    (agree : ∀ place < takenFor items, other place = origin place) :
    p.Yields platform other items := by
  obtain ⟨r, started, last, pulls⟩ := h
  have taken : last.taken = takenFor items := pulls.taken_eq.trans (takenWith_start started)
  exact ⟨r, started, last, pulls.of_agree (streams_start streams started) (taken ▸ agree)⟩

/-- A pipeline of stages that hold no records takes none before it is asked; what has come out does
not depend on records that have not been taken; and the first `n` items behind it are its own, each
as soon as before, with no record taken behind the last of them. -/
theorem lazy_and_causal (platform : Platform) (p : Pipeline)
    (streams : ∀ stage ∈ p.stages, stage.streams = true) (origin : Source) :
    (∀ r, p.start platform = .ok r → r.taken = 0) ∧
    (∀ items other, p.Yields platform origin items →
      (∀ place < takenFor items, other place = origin place) → p.Yields platform other items) ∧
    ∀ e n, (e.eval platform .null >>= StageKind.first.count) = .ok n →
      (∀ items, (p.append (.first e)).Yields platform origin items ↔
        items.length ≤ n ∧ p.Yields platform origin items) ∧
      ∀ items k, (p.append (.first e)).EndsWith platform origin items k ↔
        (items.length < n ∧ p.EndsWith platform origin items k) ∨
          (items.length = n ∧ p.Yields platform origin items ∧ k = takenFor items) :=
  ⟨fun _ => taken_start, fun _ _ yields agree => yields.of_agree streams agree, fun _ _ count =>
    ⟨fun _ => yields_append_first count, fun _ _ => endsWith_append_first count⟩⟩

/-- Every second record of an endless source: the first two depend on four records, and behind the
first one no more than two are taken. -/
theorem lazy_and_causal_islice :
    let p : Pipeline := ⟨[.call ⟨"islice", ⟨.tuple [.integer 1, .null, .integer 2], []⟩, []⟩]⟩
    let platform := Platform.reference ⟨0, 0, 0⟩
    let numbers : Source := fun place => some (.integer (.ofNat place))
    (∀ stage ∈ p.stages, stage.streams = true) ∧
    p.Yields platform numbers [(.ok (.integer 1), 2), (.ok (.integer 3), 4)] ∧
    p.Yields platform (fun place => if place < 4 then numbers place else none)
      [(.ok (.integer 1), 2), (.ok (.integer 3), 4)] ∧
    (p.append (.first (.integer 1))).EndsWith platform numbers [(.ok (.integer 1), 2)] 2 := by
  intro p platform numbers
  have streams : ∀ stage ∈ p.stages, stage.streams = true := by
    intro stage member
    obtain rfl := List.mem_singleton.1 member
    rfl
  have started : p.start platform = .ok (.spaced 2 1 0 (.source 0)) := rfl
  have slicing := Records.isSlicing_spaced numbers 2
  have begins : Records.Begins numbers (.source 0)
      [(.ok (.integer 0), 1), (.ok (.integer 1), 2), (.ok (.integer 2), 3), (.ok (.integer 3), 4)] := by
    have next (place : Nat) : (Records.source place).next numbers =
        some (some (.ok (.integer (.ofNat place))), .source (place + 1)) :=
      Records.next_eq ..
    exact Records.begins_cons.2 ⟨_, next 0, rfl, rfl, Records.begins_cons.2 ⟨_, next 1, rfl, rfl,
      Records.begins_cons.2 ⟨_, next 2, rfl, rfl, Records.begins_cons.2 ⟨_, next 3, rfl, rfl,
        Records.begins_nil⟩⟩⟩⟩
  have yields {input : List (Item × Nat)} (begins : Records.Begins numbers (.source 0) input) :
      p.Yields platform numbers (Slice.pick 2 1 none input) :=
    ⟨_, started, slicing.begins ⟨1, 0, rfl, rfl⟩ begins⟩
  have two : p.Yields platform numbers [(.ok (.integer 1), 2), (.ok (.integer 3), 4)] := yields begins
  have one : p.Yields platform numbers [(.ok (.integer 1), 2)] := yields (begins.take 2)
  obtain ⟨-, causal, first⟩ := lazy_and_causal platform p streams numbers
  refine ⟨streams, two, causal _ _ two fun place before => if_pos before, ?_⟩
  exact ((first (.integer 1) 1 rfl).2 _ _).2 (.inr ⟨rfl, one, rfl⟩)

end Pipeline

end RecordPipeline
