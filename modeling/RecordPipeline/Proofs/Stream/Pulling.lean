import RecordPipeline.Stream

/-!
What a stream answers. An answer is built up from those of the streams behind: that is the relation
`Answers`, along which properties of answers are proved. What comes out before the end, and when the
end comes, is then told by the first answer and the stream after it.
-/

namespace RecordPipeline

def Reaction.after : Reaction → Adaptor
  | answer _ a => a
  | again a => a

theorem Item.eq_of_panic? {item : Item} {cause : Panic} (h : item.panic? = some cause) :
    item = .error (.panic cause) := by
  match item with
  | .error (.panic _) =>
    cases h
    rfl

theorem Adaptor.react_error {e : EvalError} (calm : Item.panic? (.error e) = none) (a : Adaptor) :
    a.react (some (.error e)) = a.onError e := by
  cases e with
  | panic cause => cases calm
  | _ => rfl

theorem Adaptor.react_item (a : Adaptor) (item : Item) (a' : Adaptor) :
    a.react (some item) ≠ .answer none a' := by
  intro none
  cases item with
  | ok v =>
    change a.onRecord v = _ at none
    revert none
    fun_cases onRecord a v <;> nofun
  | error e =>
    cases panic : Item.panic? (.error e) with
    | none =>
      rw [react_error panic] at none
      revert none
      fun_cases onError a e <;> nofun
    | some cause =>
      cases Item.eq_of_panic? panic
      cases none

namespace Records

variable {origin : Source} {r r' s last : Records} {item : Item} {items : List (Item × Nat)} {k : Nat}

inductive Answers (origin : Source) : Records → Option Item → Records → Prop where
  | record {taken : Nat} {record : Value} (found : origin taken = some record) :
      Answers origin (source taken) (some (.ok record)) (source (taken + 1))
  | spent {taken : Nat} (spent : origin taken = none) :
      Answers origin (source taken) none (source taken)
  | once (e? : Option EvalError) : Answers origin (once e?) (e?.map .error) (once none)
  | ready {a a' : Adaptor} {inner : Records} {item? : Option Item}
      (ready : a.ready? = some (item?, a')) :
      Answers origin (adapted a inner) item? (adapted a' inner)
  | answer {a a' : Adaptor} {inner inner' : Records} {front? item? : Option Item}
      (asks : a.ready? = none) (front : Answers origin inner front? inner')
      (reacts : a.react front? = .answer item? a') :
      Answers origin (adapted a inner) item? (adapted a' inner')
  | again {a a' : Adaptor} {inner inner' last : Records} {front? item? : Option Item}
      (asks : a.ready? = none) (front : Answers origin inner front? inner')
      (reacts : a.react front? = .again a') (later : Answers origin (adapted a' inner') item? last) :
      Answers origin (adapted a inner) item? last

theorem next_ready {a : Adaptor} {answer : Option Item × Adaptor} (ready : a.ready? = some answer)
    (inner : Records) :
    (adapted a inner).next origin = some (answer.1, adapted answer.2 inner) := by
  rw [next_eq, request, ready]

theorem next_asks {a : Adaptor} (asks : a.ready? = none) (inner : Records) :
    (adapted a inner).next origin =
      (inner.next origin).bind fun answer =>
        match a.react answer.1 with
        | .answer item? a => some (item?, adapted a answer.2)
        | .again a => (adapted a answer.2).next origin := by
  rw [next_eq origin (adapted a inner), request, asks]
  rfl

section Reactions

variable {a a' : Adaptor} {inner inner' : Records} {front? item? : Option Item}

theorem next_answer (asks : a.ready? = none) (front : inner.next origin = some (front?, inner'))
    (reacts : a.react front? = .answer item? a') :
    (adapted a inner).next origin = some (item?, adapted a' inner') := by
  rw [next_asks asks, front, Option.bind_some]
  dsimp only
  rw [reacts]

theorem next_again (asks : a.ready? = none) (front : inner.next origin = some (front?, inner'))
    (reacts : a.react front? = .again a') :
    (adapted a inner).next origin = (adapted a' inner').next origin := by
  rw [next_asks asks, front, Option.bind_some]
  dsimp only
  rw [reacts]

theorem next_adapted_congr (asks : a.ready? = none) (same : inner.next origin = inner'.next origin) :
    (adapted a inner).next origin = (adapted a inner').next origin := by
  rw [next_asks asks, next_asks asks, same]

theorem next_adapted_none (asks : a.ready? = none) (stuck : inner.next origin = none) :
    (adapted a inner).next origin = none := by
  rw [next_asks asks, stuck, Option.bind_none]

end Reactions

theorem next_of_answers {item? : Option Item} (h : Answers origin r item? r') :
    r.next origin = some (item?, r') := by
  induction h with
  | record found => rw [next_eq, request, found]
  | spent spent => rw [next_eq, request, spent]
  | once e? => rw [next_eq, request]
  | ready ready => exact next_ready ready _
  | answer asks _ reacts front => exact next_answer asks front reacts
  | again asks _ reacts _ front later => exact (next_again asks front reacts).trans later

theorem answers_iff_next {item? : Option Item} :
    Answers origin r item? r' ↔ r.next origin = some (item?, r') := by
  refine ⟨next_of_answers, fun h => ?_⟩
  refine Procedure.run.partial_correctness ⟨request origin, request_grows origin⟩
    (fun r answer => Answers origin r answer.1 answer.2) ?_ r _ h
  rintro next ih (taken | e? | ⟨a, inner⟩) answer given
  · dsimp only [request] at given
    split at given <;> cases given
    · exact .record ‹_›
    · exact .spent ‹_›
  · cases given
    exact .once e?
  · dsimp only [request] at given
    split at given
    · cases given
      exact .ready ‹_›
    · rename_i asks
      obtain ⟨front, asked, given⟩ := Option.bind_eq_some_iff.1 given
      split at given
      · cases given
        exact .answer asks (ih _ _ asked) ‹_›
      · exact .again asks (ih _ _ asked) ‹_› (ih _ _ given)

theorem taken_le_of_answers {item? : Option Item} (h : Answers origin r item? r') :
    r.taken ≤ r'.taken := by
  induction h with
  | record _ => exact Nat.le_succ _
  | spent _ | once _ | ready _ => exact Nat.le_refl _
  | answer _ _ _ front => exact front
  | again _ _ _ _ front later => exact Nat.le_trans front later

/-- Asking for an item again and again gives these, each with the number of records that have been
taken when it comes out. A panic is no item. -/
inductive Pulls (origin : Source) : Records → List (Item × Nat) → Records → Prop where
  | none {r : Records} : Pulls origin r [] r
  | next {r r' last : Records} {item : Item} {later : List (Item × Nat)}
      (h : r.next origin = some (some item, r')) (calm : item.panic? = none)
      (rest : Pulls origin r' later last) :
      Pulls origin r ((item, r'.taken) :: later) last

def Ends (origin : Source) (r : Records) (taken : Nat) : Prop :=
  ∃ last, r.next origin = some (none, last) ∧ last.taken = taken

theorem Pulls.taken_le (h : Pulls origin r items last) : r.taken ≤ last.taken := by
  induction h with
  | none => exact Nat.le_refl _
  | next h _ _ ih => exact Nat.le_trans (taken_le_of_answers (answers_iff_next.2 h)) ih

theorem Pulls.taken_eq (h : Pulls origin r items last) :
    last.taken = (items.map Prod.snd).getLastD r.taken := by
  induction h with
  | none => rfl
  | next _ _ _ ih => rw [ih, List.map_cons, List.getLastD_cons]

def Begins (origin : Source) (r : Records) (items : List (Item × Nat)) : Prop :=
  ∃ last, Pulls origin r items last

def Finishes (origin : Source) (r : Records) (items : List (Item × Nat)) (k : Nat) : Prop :=
  ∃ last, Pulls origin r items last ∧ last.Ends origin k

theorem begins_nil : r.Begins origin [] :=
  ⟨r, .none⟩

theorem begins_cons {first : Item × Nat} :
    r.Begins origin (first :: items) ↔
      ∃ r', r.next origin = some (some first.1, r') ∧ first.1.panic? = none ∧ r'.taken = first.2 ∧
        r'.Begins origin items := by
  constructor
  · rintro ⟨last, pulls⟩
    cases pulls with
    | next given calm rest => exact ⟨_, given, calm, rfl, _, rest⟩
  · obtain ⟨item, taken⟩ := first
    rintro ⟨r', given, calm, rfl, last, rest⟩
    exact ⟨last, .next given calm rest⟩

theorem finishes_nil :
    r.Finishes origin [] k ↔ ∃ r', r.next origin = some (none, r') ∧ r'.taken = k := by
  constructor
  · rintro ⟨last, pulls, ends⟩
    cases pulls
    exact ends
  · exact fun ends => ⟨r, .none, ends⟩

theorem finishes_cons {first : Item × Nat} :
    r.Finishes origin (first :: items) k ↔
      ∃ r', r.next origin = some (some first.1, r') ∧ first.1.panic? = none ∧ r'.taken = first.2 ∧
        r'.Finishes origin items k := by
  constructor
  · rintro ⟨last, pulls, ends⟩
    cases pulls with
    | next given calm rest => exact ⟨_, given, calm, rfl, _, rest, ends⟩
  · obtain ⟨item, taken⟩ := first
    rintro ⟨r', given, calm, rfl, last, rest, ends⟩
    exact ⟨last, .next given calm rest, ends⟩

theorem Begins.take (h : r.Begins origin items) (n : Nat) : r.Begins origin (items.take n) := by
  induction items generalizing r n with
  | nil => rwa [List.take_nil]
  | cons first later ih =>
    cases n with
    | zero => exact begins_nil
    | succ n =>
      obtain ⟨r', given, calm, taken, rest⟩ := begins_cons.1 h
      exact begins_cons.2 ⟨r', given, calm, taken, ih rest n⟩

theorem Finishes.begins (h : r.Finishes origin items k) : r.Begins origin items :=
  h.imp fun _ => And.left

theorem begins_congr (same : r.next origin = s.next origin) :
    r.Begins origin items ↔ s.Begins origin items := by
  cases items with
  | nil => exact iff_of_true begins_nil begins_nil
  | cons first later => simp only [begins_cons, same]

theorem finishes_congr (same : r.next origin = s.next origin) :
    r.Finishes origin items k ↔ s.Finishes origin items k := by
  cases items with
  | nil => simp only [finishes_nil, same]
  | cons first later => simp only [finishes_cons, same]

def takenWith (r : Records) (items : List (Item × Nat)) : Nat :=
  (items.map Prod.snd).getLastD r.taken

theorem takenWith_cons {first : Item × Nat} (taken : r'.taken = first.2) :
    r.takenWith (first :: items) = r'.takenWith items := by
  rw [takenWith, takenWith, List.map_cons, List.getLastD_cons, taken]

/-- What the stream gives when it is asked for `needed` items, or for all if no number is given: as
many as were asked for, or fewer and the end. Then `k` records have been taken. -/
def Supplies (origin : Source) (r : Records) (needed : Option Nat) (items : List (Item × Nat))
    (k : Nat) : Prop :=
  (∀ n ∈ needed, items.length < n) ∧ r.Finishes origin items k ∨
    needed = some items.length ∧ r.Begins origin items ∧ k = r.takenWith items

theorem Supplies.length_le {needed : Option Nat} (h : r.Supplies origin needed items k) :
    ∀ n ∈ needed, items.length ≤ n := by
  rcases h with ⟨few, -⟩ | ⟨rfl, -⟩
  · exact fun n asked => Nat.le_of_lt (few n asked)
  · rintro n ⟨⟩
    exact Nat.le_refl _

theorem supplies_some {n : Nat} :
    r.Supplies origin (some n) items k ↔ items.length < n ∧ r.Finishes origin items k ∨
      items.length = n ∧ r.Begins origin items ∧ k = r.takenWith items := by
  simp [Supplies, eq_comm]

theorem Finishes.exists_supplies (h : r.Finishes origin items k) (n : Nat) :
    ∃ k', r.Supplies origin (some n) (items.take n) k' := by
  rcases Nat.lt_or_ge items.length n with few | enough
  · refine ⟨k, supplies_some.2 (.inl ?_)⟩
    rw [List.take_of_length_le (Nat.le_of_lt few)]
    exact ⟨few, h⟩
  · exact ⟨_, supplies_some.2 (.inr ⟨List.length_take_of_le enough, h.begins.take n, rfl⟩)⟩

theorem supplies_zero : r.Supplies origin (some 0) items k ↔ items = [] ∧ k = r.taken := by
  rw [supplies_some, List.length_eq_zero_iff]
  constructor
  · rintro (⟨few, -⟩ | ⟨rfl, -, rfl⟩)
    · exact absurd few (Nat.not_lt_zero _)
    · exact ⟨rfl, rfl⟩
  · rintro ⟨rfl, rfl⟩
    exact .inr ⟨rfl, begins_nil, rfl⟩

theorem supplies_nil {needed : Option Nat} (some? : needed ≠ some 0) :
    r.Supplies origin needed [] k ↔ r.Finishes origin [] k := by
  constructor
  · rintro (⟨-, finishes⟩ | ⟨none, -⟩)
    · exact finishes
    · exact absurd none some?
  · intro finishes
    refine .inl ⟨fun n same => Nat.pos_of_ne_zero ?_, finishes⟩
    rintro rfl
    exact some? same

theorem supplies_cons {needed : Option Nat} {first : Item × Nat} :
    r.Supplies origin (needed.map (· + 1)) (first :: items) k ↔
      ∃ r', r.next origin = some (some first.1, r') ∧ first.1.panic? = none ∧ r'.taken = first.2 ∧
        r'.Supplies origin needed items k := by
  have few : (∀ n ∈ needed.map (· + 1), (first :: items).length < n) ↔
      ∀ n ∈ needed, items.length < n := by
    simp
  have all : needed.map (· + 1) = some (first :: items).length ↔ needed = some items.length := by
    simp
  simp only [Supplies, few, all, finishes_cons, begins_cons]
  constructor
  · rintro (⟨few, r', given, calm, taken, rest⟩ | ⟨all, ⟨r', given, calm, taken, rest⟩, rfl⟩)
    · exact ⟨r', given, calm, taken, .inl ⟨few, rest⟩⟩
    · exact ⟨r', given, calm, taken, .inr ⟨all, rest, takenWith_cons taken⟩⟩
  · rintro ⟨r', given, calm, taken, ⟨few, rest⟩ | ⟨all, rest, rfl⟩⟩
    · exact .inl ⟨few, r', given, calm, taken, rest⟩
    · exact .inr ⟨all, ⟨r', given, calm, taken, rest⟩, (takenWith_cons taken).symm⟩

end Records

end RecordPipeline
