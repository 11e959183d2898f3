import RecordPipeline.Stream.Stage

/-!
Running a pipeline. Its records are a stream that is pulled: each adaptor asks the one in front of it,
and the first one a source, which may be endless. No record is taken before an item is asked for.
-/

namespace RecordPipeline

/-- With more answers to go by there are more answers, and the others stay. -/
def Procedure.Grows {α β : Type} (body : (α → Option β) → α → Option β) : Prop :=
  ∀ f g : α → Option β, (∀ a, f a = none ∨ f a = g a) → ∀ a, body f a = none ∨ body f a = body g a

/-- A procedure whose answers may depend on other answers of its own. -/
structure Procedure (α β : Type) where
  body : (α → Option β) → α → Option β
  grows : Procedure.Grows body

namespace Procedure

variable {α β : Type} (procedure : Procedure α β)

theorem of_grows {P : ((α → Option β) → α → Option β) → Prop}
    (h : ∀ body : (α → Option β) → α → Option β, Grows body → P body) : P procedure.body :=
  h procedure.body procedure.grows

/-- There is no answer where each depends on another without end. -/
def run : α → Option β :=
  procedure.body run
partial_fixpoint monotonicity procedure.of_grows fun body grows => by
  intro f g less a
  have less' (a : α) : f a = none ∨ f a = g a := by
    have less := less a
    revert less
    generalize f a = answer
    generalize g a = answer'
    rintro (_ | _)
    · exact .inl rfl
    · exact .inr rfl
  rcases grows f g less' a with none | same
  · rw [none]
    exact .bot
  · rw [same]
    exact .refl

end Procedure

abbrev Source := Nat → Option Value

def Source.ofList (records : List Value) : Source :=
  fun position => records[position]?

/-- A stream of records: those of a source of which some have been taken, an error instead of
records, or what an adaptor makes of another stream. -/
inductive Records where
  | source (taken : Nat)
  | once (e? : Option EvalError)
  | adapted (a : Adaptor) (inner : Records)

namespace Records

def taken : Records → Nat
  | source taken => taken
  | once _ => 0
  | adapted _ inner => inner.taken

section Requests

variable (origin : Source)

def request (next : Records → Option (Option Item × Records)) :
    Records → Option (Option Item × Records)
  | source taken =>
    match origin taken with
    | some record => some (some (.ok record), source (taken + 1))
    | none => some (none, source taken)
  | once e? => some (e?.map .error, once none)
  | adapted a inner =>
    match a.ready? with
    | some answer => some (answer.1, adapted answer.2 inner)
    | none => do
      let answer ← next inner
      match a.react answer.1 with
      | .answer item? a => some (item?, adapted a answer.2)
      | .again a => next (adapted a answer.2)

theorem request_grows : Procedure.Grows (request origin) := by
  intro next next' less r
  cases r with
  | source | once => exact .inr rfl
  | adapted a inner =>
    rw [request, request]
    cases a.ready? with
    | some answer => exact .inr rfl
    | none =>
      rcases less inner with none | same
      · rw [none]
        exact .inl rfl
      · rw [same]
        cases next' inner with
        | none => exact .inr rfl
        | some answer =>
          dsimp only [bind, Option.bind]
          cases a.react answer.1 with
          | answer => exact .inr rfl
          | again a => exact less _

/-- The next item or the end, and the stream after it. There is no answer if a stage asks for records
without end. -/
def next : Records → Option (Option Item × Records) :=
  Procedure.run ⟨request origin, request_grows origin⟩

theorem next_eq (r : Records) : r.next origin = request origin (next origin) r :=
  congrFun (Procedure.run.eq_1 ⟨request origin, request_grows origin⟩) r

def collectFrom (collect : List Value × Records → Option (Evaluated (List Value)))
    (state : List Value × Records) : Option (Evaluated (List Value)) := do
  let answer ← state.2.next origin
  match answer.1 with
  | some (.ok record) => collect (record :: state.1, answer.2)
  | some (.error e) => some (.error e)
  | none => some (.ok state.1.reverse)

theorem collectFrom_grows : Procedure.Grows (collectFrom origin) := by
  intro collect collect' less state
  rw [collectFrom, collectFrom]
  cases state.2.next origin with
  | none => exact .inr rfl
  | some answer =>
    obtain ⟨_ | (e | record), r⟩ := answer
    · exact .inr rfl
    · exact .inr rfl
    · exact less (record :: state.1, r)

/-- Pulls up to the end, or to the first error, with the records so far in reverse. -/
def collect (held : List Value) (records : Records) : Option (Evaluated (List Value)) :=
  Procedure.run ⟨collectFrom origin, collectFrom_grows origin⟩ (held, records)

theorem collect_eq (held : List Value) (r : Records) :
    r.collect origin held =
      collectFrom origin (fun state => state.2.collect origin state.1) (held, r) :=
  congrFun (Procedure.run.eq_1 ⟨collectFrom origin, collectFrom_grows origin⟩) (held, r)

end Requests

end Records

/-- A stage that cannot be built has its error instead of the records. -/
def Stage.apply (platform : Platform) (records : Records) (stage : Stage) : Except Panic Records :=
  match stage.build platform with
  | .ok adaptors => .ok (adaptors.foldl (fun records a => .adapted a records) records)
  | .error (.panic cause) => .error cause
  | .error e => .ok (.once e)

def Pipeline.start (platform : Platform) (p : Pipeline) : Except Panic Records :=
  p.stages.foldlM (Stage.apply platform) (.source 0)

def Pipeline.results (platform : Platform) (p : Pipeline) (records : List Value) :
    Option (Evaluated (List Value)) :=
  match p.start platform with
  | .ok stream => stream.collect (.ofList records) []
  | .error cause => some (.error (.panic cause))

end RecordPipeline
