import RecordPipeline.Proofs.Stream.Distances
import RecordPipeline.Proofs.Value.Canonical

/-!
What a stage makes of a whole list of items, said of the list alone: which items are kept, what they
become, and where an error stands. Behind a panic nothing follows, and nothing passes over it.
-/

namespace RecordPipeline

namespace Items

/-- The items up to the first panic, which is the last of them. -/
def upToPanic : List Item → List Item
  | [] => []
  | item :: later => if item.panic?.isSome then [item] else item :: upToPanic later

def filter (test : Value → Evaluated Value) (items : List Item) : List Item :=
  items.filterMap fun
    | .error e => some (.error e)
    | .ok v =>
      match test v with
      | .error e => some (.error e)
      | .ok verdict => if verdict.isTruthy then some (.ok v) else none

def keyText (key : Value → Evaluated Value) (v : Value) : Evaluated String :=
  (key v).map (Json.text .compact)

def hasKey (key : Value → Evaluated Value) (k : String) (items : List Item) : Bool :=
  items.any fun
    | .error _ => false
    | .ok v => (keyText key v).toOption == some k

/-- A record is left out if one of the items before it has its key. -/
def unseen (key : Value → Evaluated Value) (earlier : List Item) : Item → Option Item
  | .error e => some (.error e)
  | .ok v =>
    match keyText key v with
    | .error e => some (.error e)
    | .ok k => if hasKey key k earlier then none else some (.ok v)

def distinct (key : Value → Evaluated Value) (items : List Item) : List Item :=
  items.zipIdx.filterMap fun (item, place) => unseen key (items.take place) item

def expand (f : Value → Evaluated Value) (items : List Item) : List Item :=
  items.flatMap fun item =>
    match item.bind f with
    | .ok (.array parts) => parts.map .ok
    | .ok v => [.ok v]
    | .error e => [.error e]

def calm (items : List Item) : List Item :=
  items.takeWhile fun item => item.panic?.isNone

def panics (items : List Item) : List Item :=
  items.dropWhile fun item => item.panic?.isNone

def every (step : Nat) (items : List Item) : List Item :=
  (items.zipIdx.filter fun item => item.2 % step = 0).map Prod.fst

def slice (start : Nat) (stop : Option Nat) (step : Nat) (items : List Item) : List Item :=
  let spaced := every step ((calm items).drop start) ++ panics items
  match stop with
  | none => spaced
  | some stop => spaced.take ((stop - start + step - 1) / step)

/-- The first error among the items, or what comes of all records at once. -/
def gathered (result : List Value → Evaluated (List Value)) (items : List Item) : List Item :=
  match items.mapM id with
  | .error e => [.error e]
  | .ok records =>
    match result records with
    | .error e => [.error e]
    | .ok records => records.map .ok

/-- What comes of keys that are not all in one order: two without an order are equal to the sort, and the
first two of them that it compares are the error. -/
def sortedAsFarAsOrdered (sort : StableSort) (reverse : Bool) (keyed : List (Value × Value)) :
    Evaluated (List Value) :=
  let order? (i j : Fin keyed.length) := Value.order? reverse (keyed.get i).1 (keyed.get j).1
  let answer (i j : Fin keyed.length) := (order? i j).getD .eq
  let sorting := sort.sorting keyed.length
  match sorting.run answer with
  | none => .error (.panic .sort)
  | some order =>
    match (sorting.asked answer).find? fun pair => (order? pair.1 pair.2).isNone with
    | none => .ok (order.map fun i => (keyed.get i).2)
    | some (i, j) => refuse (.order (Value.unordered reverse (keyed.get i).1 (keyed.get j).1))

/-- The records in the order of their keys, equal ones as they stood, if every two keys have an order
and the orders chain. What comes of other keys depends on the sort. -/
def sortedBy (sort : StableSort) (key : Value → Evaluated Value) (reverse : Bool)
    (records : List Value) : Evaluated (List Value) := do
  let keyed ← records.mapM fun v => do return (← key v, v)
  let keys (i : Fin keyed.length) : Value := (keyed.get i).1
  if Sorting.Chains reverse keys ∧
      ∀ i j, i ≠ j → (Value.order? reverse (keys i) (keys j)).isSome then
    return (keyed.mergeSort fun a b => Value.order? reverse a.1 b.1 ≠ some .gt).map Prod.snd
  else sortedAsFarAsOrdered sort reverse keyed

end Items

namespace Value

def without (keys : List String) : Value → Value
  | object fields => object (fields.filter fun field => field.1 ∉ keys)
  | v => v

/-- The fields of the record that have not been changed, together with the changes, in key order. -/
def changed : Value → Value → Evaluated Value
  | object fields, object changes =>
    .ok (object (((fields.filter fun field => field.1 ∉ changes.map Prod.fst) ++ changes).mergeSort
      fun a b => a.1 ≤ b.1))
  | record, changes => refuse (.merging changes.kind record.kind)

end Value

/-- What a stage makes of its items, or why there is no such stage. -/
def StageKind.meaning (platform : Platform) (kind : StageKind) (i : Invocation) :
    Evaluated (List Item → List Item) :=
  let f (v : Value) : Evaluated Value := i.callable.eval platform v
  match kind with
  | map => .ok fun items => items.map fun item => item.bind f
  | filter => .ok (Items.filter f)
  | update => .ok fun items => items.map fun item => item.bind fun v => (f v).bind v.changed
  | hide => do
    let keys := (← i.callable.constants platform).map Value.text
    return fun items => items.map (Except.map (Value.without keys))
  | sorted => do
    let reverse ←
      match i.named.lookup "reverse" with
      | some e => (e.eval platform .null).map Value.isTruthy
      | none => .ok false
    return Items.gathered (Items.sortedBy platform.sort f reverse)
  | unique => .ok (Items.distinct f)
  | first => do
    let count ← kind.singleCount (← i.callable.constants platform)
    return fun items => items.take count
  | last => do
    let count ← kind.singleCount (← i.callable.constants platform)
    return fun items =>
      if platform.capacity < count then [.error (.panic .buffer)]
      else Items.gathered (fun records => .ok (records.drop (records.length - count))) items
  | islice => do
    let (start, stop, step) ← kind.sliceBounds (← i.callable.constants platform)
    if step = 0 then kind.refuse .zeroStep else return Items.slice start stop step
  | reduceList => .ok (Items.gathered fun records => .ok [.array records])
  | yieldAll => .ok (Items.expand f)

def Invocation.meaning (platform : Platform) (name : String) (i : Invocation) :
    Evaluated (List Item → List Item) :=
  match i.named.find? fun option => !StageKind.takesOption name option.1 with
  | some option => .error (.badParameter name (.unknownOption option.1))
  | none =>
    match StageKind.ofName? name with
    | some kind => kind.meaning platform i
    | none => .error (.unknownStage name)

namespace Stage

def meaning (platform : Platform) : Stage → Evaluated (List Item → List Item)
  | reference name => Invocation.passthrough.meaning platform name
  | call c =>
    if c.trailers.isEmpty then c.invocation.meaning platform c.name else .error (.trailing c.name)

/-- A stage that cannot be built gives the reason and nothing else, unless building it panics. -/
def onItems (platform : Platform) (stage : Stage) (items : List Item) : Except Panic (List Item) :=
  match stage.meaning platform with
  | .ok f => .ok (Items.upToPanic (f items))
  | .error (.panic cause) => .error cause
  | .error e => .ok [.error e]

end Stage

def Items.Canonical (items : List Item) : Prop :=
  ∀ v, .ok v ∈ items → v.Canonical

theorem Value.meets_changed {record change : Value} (h : record.Canonical) (h' : change.Canonical) :
    (record.changed change).Meets Canonical := by
  fun_cases changed record change
  · rename_i fields changes
    rw [← Fields.merge_eq_mergeSort (canonical_object.1 h).1 (canonical_object.1 h').1]
    exact Evaluated.meets_ok (canonical_merge h (canonical_object.1 h').2)
  · exact Evaluated.meets_refuse _

theorem Value.canonical_without (keys : List String) {v : Value} (h : v.Canonical) :
    (v.without keys).Canonical := by
  cases v with
  | object fields =>
    obtain ⟨sorted, parts⟩ := canonical_object.1 h
    exact canonical_object.2 ⟨sorted.filter _, fun field member => parts field (List.mem_filter.1 member).1⟩
  | _ => exact h

namespace Items

variable {items : List Item}

theorem Canonical.of_subset {others : List Item} (h : Canonical items)
    (kept : ∀ v, .ok v ∈ others → .ok v ∈ items) : Canonical others :=
  fun v member => h v (kept v member)

theorem Canonical.map {f : Value → Evaluated Value} (h : Canonical items)
    (meets : ∀ v, v.Canonical → (f v).Meets Value.Canonical) :
    Canonical (items.map fun item => item.bind f) := by
  intro v member
  obtain ⟨item, among, given⟩ := List.mem_map.1 member
  obtain ⟨u, rfl, given⟩ := except_bind_ok.1 given
  exact meets u (h u among) v given

theorem Canonical.filter {test : Value → Evaluated Value} (h : Canonical items) :
    Canonical (filter test items) := by
  refine h.of_subset fun v member => ?_
  obtain ⟨item, among, given⟩ := List.mem_filterMap.1 member
  cases item with
  | error e => cases given
  | ok u =>
    dsimp only at given
    split at given
    · cases given
    · split at given <;> cases given
      exact among

theorem Canonical.distinct {key : Value → Evaluated Value} (h : Canonical items) :
    Canonical (distinct key items) := by
  refine h.of_subset fun v member => ?_
  obtain ⟨⟨item, place⟩, among, given⟩ := List.mem_filterMap.1 member
  have inside : item ∈ items := List.fst_mem_of_mem_zipIdx among
  cases item with
  | error e => cases given
  | ok u =>
    dsimp only [unseen] at given
    split at given
    · cases given
    · split at given <;> cases given
      exact inside

theorem Canonical.expand {f : Value → Evaluated Value} (h : Canonical items)
    (meets : ∀ v, v.Canonical → (f v).Meets Value.Canonical) : Canonical (expand f items) := by
  intro v member
  obtain ⟨item, among, given⟩ := List.mem_flatMap.1 member
  cases item with
  | error e =>
    cases List.mem_singleton.1 given
  | ok u =>
    have canonical := meets u (h u among)
    have bound : (Except.ok u : Item).bind f = f u := rfl
    simp only [bound] at given
    split at given
    · rename_i parts found
      obtain ⟨part, inside, same⟩ := List.mem_map.1 given
      cases same
      exact Value.canonical_array.1 (canonical _ found) _ inside
    · rename_i found
      cases List.mem_singleton.1 given
      exact canonical _ found
    · cases List.mem_singleton.1 given

theorem Canonical.slice {start step : Nat} {stop : Option Nat} (h : Canonical items) :
    Canonical (slice start stop step items) := by
  have spaced : Canonical (every step ((calm items).drop start) ++ panics items) := by
    refine h.of_subset fun v member => ?_
    rcases List.mem_append.1 member with member | member
    · obtain ⟨place, among, same⟩ := List.mem_map.1 member
      have inside := List.fst_mem_of_mem_zipIdx (List.mem_filter.1 among).1
      rw [same] at inside
      exact (List.takeWhile_prefix _).subset (List.mem_of_mem_drop inside)
    · exact (List.dropWhile_suffix _).subset member
  cases stop with
  | none => exact spaced
  | some n => exact spaced.of_subset fun v member => List.mem_of_mem_take member

theorem mem_of_mapM {records : List Value} (found : items.mapM id = .ok records) :
    ∀ v ∈ records, .ok v ∈ items := by
  induction items generalizing records with
  | nil =>
    cases found
    nofun
  | cons item later ih =>
    rw [List.mapM_cons] at found
    obtain ⟨v, here, found⟩ := except_bind_ok.1 found
    obtain ⟨others, rest, found⟩ := except_bind_ok.1 found
    cases found
    rw [id] at here
    subst here
    intro u member
    rcases List.mem_cons.1 member with rfl | member
    · exact List.mem_cons_self
    · exact List.mem_cons_of_mem _ (ih rest u member)

theorem Canonical.gathered {result : List Value → Evaluated (List Value)} (h : Canonical items)
    (meets : ∀ records : List Value, (∀ v ∈ records, v.Canonical) →
      (result records).Meets fun records => ∀ v ∈ records, v.Canonical) :
    Canonical (gathered result items) := by
  intro v member
  rw [Items.gathered] at member
  split at member
  · cases List.mem_singleton.1 member
  · rename_i records found
    split at member
    · cases List.mem_singleton.1 member
    · rename_i results given
      obtain ⟨u, among, same⟩ := List.mem_map.1 member
      cases same
      exact meets records (fun v inside => h v (mem_of_mapM found v inside)) results given _ among

theorem meets_sortedBy {P : Value → Prop} {sort : StableSort} {key : Value → Evaluated Value}
    {reverse : Bool} {records : List Value} (h : ∀ v ∈ records, P v) :
    (sortedBy sort key reverse records).Meets fun sorted => ∀ v ∈ sorted, P v := by
  have keyed : Evaluated.Meets (records.mapM fun v => do return (← key v, v)) fun keyed =>
      ∀ pair ∈ keyed, P pair.2 := by
    induction records with
    | nil => exact Evaluated.meets_ok nofun
    | cons v later ih =>
      obtain ⟨here, others⟩ := List.forall_mem_cons.1 h
      rw [List.mapM_cons]
      intro keyed found
      obtain ⟨pair, given, found⟩ := except_bind_ok.1 found
      obtain ⟨k, -, given⟩ := except_bind_ok.1 given
      obtain ⟨rest, mapped, found⟩ := except_bind_ok.1 found
      cases given
      cases found
      exact List.forall_mem_cons.2 ⟨here, ih others rest mapped⟩
  refine keyed.bind fun keyed members => ?_
  dsimp only
  split
  · refine Evaluated.meets_ok fun v member => ?_
    obtain ⟨pair, among, rfl⟩ := List.mem_map.1 member
    exact members pair ((List.mergeSort_perm _ _).mem_iff.1 among)
  · intro sorted given v member
    rw [sortedAsFarAsOrdered] at given
    dsimp only at given
    split at given
    · cases given
    · split at given
      · cases given
        obtain ⟨i, -, rfl⟩ := List.mem_map.1 member
        exact members _ (keyed.get_mem i)
      · cases given

theorem Canonical.upToPanic (h : Canonical items) : Canonical (upToPanic items) := by
  refine h.of_subset fun v member => ?_
  induction items with
  | nil => cases member
  | cons item later ih =>
    rw [Items.upToPanic] at member
    split at member
    · exact List.mem_cons.2 (.inl (List.mem_singleton.1 member))
    · rcases List.mem_cons.1 member with same | member
      · exact List.mem_cons.2 (.inl same)
      · exact List.mem_cons_of_mem _ (ih (h.of_subset fun v => List.mem_cons_of_mem _) member)

end Items

section Stages

variable {platform : Platform}

theorem StageKind.canonical_meaning {kind : StageKind} {i : Invocation} {f : List Item → List Item}
    {items : List Item} (means : kind.meaning platform i = .ok f) (h : Items.Canonical items) :
    Items.Canonical (f items) := by
  have evaluates (v : Value) (canonical : v.Canonical) :
      (i.callable.eval platform v).Meets Value.Canonical := i.callable.meets_eval canonical
  cases kind with
  | map =>
    cases means
    exact h.map evaluates
  | filter =>
    cases means
    exact h.filter
  | update =>
    cases means
    exact h.map fun v canonical => (evaluates v canonical).bind fun change canonical' =>
      Value.meets_changed canonical canonical'
  | hide =>
    obtain ⟨parameters, -, means⟩ := except_bind_ok.1 means
    cases means
    intro v member
    obtain ⟨item, among, given⟩ := List.mem_map.1 member
    obtain ⟨u, rfl, rfl⟩ := except_map_ok.1 given
    exact Value.canonical_without _ (h u among)
  | sorted =>
    have sorts (reverse : Bool) : Items.Canonical
        (Items.gathered (Items.sortedBy platform.sort (fun v => i.callable.eval platform v) reverse) items) :=
      h.gathered fun records canonical => Items.meets_sortedBy canonical
    rw [meaning] at means
    split at means
    · obtain ⟨reverse, -, means⟩ := except_bind_ok.1 means
      cases means
      exact sorts reverse
    · cases means
      exact sorts false
  | unique =>
    cases means
    exact h.distinct
  | first =>
    obtain ⟨parameters, -, means⟩ := except_bind_ok.1 means
    obtain ⟨count, -, means⟩ := except_bind_ok.1 means
    cases means
    exact h.of_subset fun v member => List.mem_of_mem_take member
  | last =>
    obtain ⟨parameters, -, means⟩ := except_bind_ok.1 means
    obtain ⟨count, -, means⟩ := except_bind_ok.1 means
    cases means
    intro v member
    dsimp only at member
    split at member
    · cases List.mem_singleton.1 member
    · exact h.gathered (fun records canonical => Evaluated.meets_ok fun v member =>
        canonical v (List.mem_of_mem_drop member)) v member
  | islice =>
    obtain ⟨parameters, -, means⟩ := except_bind_ok.1 means
    obtain ⟨⟨start, stop, step⟩, -, means⟩ := except_bind_ok.1 means
    dsimp only at means
    split at means <;> cases means
    exact h.slice
  | reduceList =>
    cases means
    exact h.gathered fun records canonical => Evaluated.meets_ok
      (List.forall_mem_singleton.2 (Value.canonical_array.2 canonical))
  | yieldAll =>
    cases means
    exact h.expand evaluates

theorem Invocation.canonical_meaning {name : String} {i : Invocation} {f : List Item → List Item}
    {items : List Item} (means : i.meaning platform name = .ok f) (h : Items.Canonical items) :
    Items.Canonical (f items) := by
  rw [meaning] at means
  split at means
  · cases means
  · split at means
    · exact StageKind.canonical_meaning means h
    · cases means

theorem Stage.canonical_meaning {stage : Stage} {f : List Item → List Item} {items : List Item}
    (means : stage.meaning platform = .ok f) (h : Items.Canonical items) : Items.Canonical (f items) := by
  cases stage with
  | reference name =>
    rw [meaning] at means
    exact Invocation.canonical_meaning means h
  | call c =>
    rw [meaning] at means
    split at means
    · exact Invocation.canonical_meaning means h
    · cases means

end Stages

end RecordPipeline
