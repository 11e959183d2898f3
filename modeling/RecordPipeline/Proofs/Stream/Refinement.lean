import RecordPipeline.Proofs.Stream.Adaptors
import RecordPipeline.Proofs.Stream.Causality

/-!
Pulling a pipeline until it ends. The adaptors of a stage make the same of every list of items as the
stage does, so a pipeline gives what its stages make of the list of all records, one stage after the
other.
-/

namespace RecordPipeline

namespace Items
variable {items : List Item}

theorem hasKey_concat (key : Value → Evaluated Value) (k : String) (earlier : List Item)
    (item : Item) :
    hasKey key k (earlier ++ [item]) = (hasKey key k earlier || hasKey key k [item]) := by
  simp [hasKey]

theorem hasKey_singleton (key : Value → Evaluated Value) (k : String) (v : Value) :
    hasKey key k [.ok v] = ((keyText key v).toOption == some k) := by
  simp [hasKey]

/-- Behind the items whose keys have been seen, the others are as in the list of all of them. -/
theorem fresh_eq_filterMap (key : Value → Evaluated Value) (earlier later : List Item)
    (seen : List String) (same : ∀ k, seen.contains k = hasKey key k earlier) :
    Adaptor.fresh (keyText key) seen later =
      (later.zipIdx earlier.length).filterMap fun (item, place) =>
        unseen key ((earlier ++ later).take place) item := by
  induction later generalizing earlier seen with
  | nil => rfl
  | cons item later ih =>
    have before : (earlier ++ item :: later).take earlier.length = earlier := by simp
    have rest (seen' : List String)
        (same' : ∀ k, seen'.contains k = (seen.contains k || hasKey key k [item])) := by
      have rest := ih (earlier ++ [item]) seen' fun k => by rw [same', same, hasKey_concat]
      rwa [List.append_assoc, List.singleton_append, List.length_append, List.length_singleton] at rest
    rw [List.zipIdx_cons, List.filterMap_cons]
    dsimp only
    rw [before]
    cases item with
    | error e =>
      rw [Adaptor.fresh, rest seen fun k => (Bool.or_false _).symm]
      rfl
    | ok v =>
      simp only [hasKey_singleton] at rest
      rw [Adaptor.fresh, unseen]
      cases text : keyText key v with
      | error e =>
        rw [text] at rest
        dsimp only
        rw [rest seen fun k => (Bool.or_false _).symm]
      | ok k =>
        rw [text] at rest
        dsimp only
        rw [← same]
        by_cases known : seen.contains k = true
        · rw [if_pos known, if_pos known, rest seen fun k' => ?_]
          by_cases equal : k = k'
          · rw [← equal, known, Bool.true_or]
          · rw [show ((Except.toOption (.ok k : Evaluated String)) == some k') = false from
              beq_false_of_ne fun same => equal (Option.some.inj same), Bool.or_false]
        · rw [if_neg known, if_neg known, rest (k :: seen) fun k' => ?_]
          rw [List.contains_cons, Bool.or_comm, BEq.comm]
          rfl

theorem fresh_eq_distinct (key : Value → Evaluated Value) (items : List Item) :
    Adaptor.fresh (keyText key) [] items = distinct key items :=
  fresh_eq_filterMap key [] items [] fun _ => rfl

theorem filterMap_passing (test : Value → Evaluated Value) (items : List Item) :
    items.filterMap (Adaptor.passing fun v => (test v).map Value.isTruthy) = filter test items := by
  refine List.filterMap_congr fun item _ => ?_
  cases item with
  | error e => rfl
  | ok v =>
    simp only [Adaptor.passing]
    cases test v <;> rfl

theorem flatMap_expanded (f : Value → Evaluated Value) (items : List Item) :
    items.flatMap (Adaptor.expanded fun v => (f v).map Value.parts) = expand f items := by
  refine List.flatMap_congr fun item _ => ?_
  cases item with
  | error e => rfl
  | ok v =>
    simp only [Adaptor.expanded, Except.bind]
    cases f v with
    | error e => rfl
    | ok value => cases value <;> rfl

theorem every_drop_eq_pick {step : Nat} (positive : 0 < step) (start : Nat) (items : List Item) :
    every step (items.drop start) = Slice.pick step start none items := by
  rw [Slice.pick_drop, every, ← Option.map_none, Slice.pick_eq_kept positive, Slice.kept]
  simp [Slice.Keeps, Nat.dvd_iff_mod_eq_zero]

theorem pick_one (items : List Item) : Slice.pick 1 0 none items = items := by
  induction items with
  | nil => rfl
  | cons item later ih => exact congrArg (item :: ·) ih

theorem panic?_of_mem_calm {item : Item} (h : item ∈ calm items) : item.panic? = none := by
  induction items with
  | nil => cases h
  | cons first later ih =>
    rw [calm, List.takeWhile_cons] at h
    split at h
    · rename_i none
      rcases List.mem_cons.1 h with rfl | h
      · exact Option.isNone_iff_eq_none.1 none
      · exact ih h
    · cases h

theorem upToPanic_append {front : List Item} (calm : ∀ item ∈ front, item.panic? = none)
    (rest : List Item) : upToPanic (front ++ rest) = front ++ upToPanic rest := by
  induction front with
  | nil => rfl
  | cons item later ih =>
    obtain ⟨here, others⟩ := List.forall_mem_cons.1 calm
    rw [List.cons_append, upToPanic_of_calm here, ih others, List.cons_append]

theorem calm_append {front : List Item} (calm' : ∀ item ∈ front, item.panic? = none)
    (rest : List Item) : calm (front ++ rest) = front ++ calm rest :=
  List.takeWhile_append_of_pos fun item member => by rw [calm' item member]; rfl

theorem panics_append {front : List Item} (calm : ∀ item ∈ front, item.panic? = none)
    (rest : List Item) : panics (front ++ rest) = panics rest :=
  List.dropWhile_append_of_pos fun item member => by rw [calm item member]; rfl

theorem upToPanic_take (n : Nat) (items : List Item) :
    upToPanic ((upToPanic items).take n) = upToPanic (items.take n) := by
  induction items generalizing n with
  | nil => rfl
  | cons item later ih =>
    cases n with
    | zero => rfl
    | succ n =>
      cases panic : item.panic? with
      | none =>
        rw [upToPanic_of_calm panic, List.take_succ_cons, List.take_succ_cons, upToPanic_of_calm panic,
          upToPanic_of_calm panic, ih]
      | some cause =>
        rw [upToPanic_of_panic panic, List.take_succ_cons, List.take_succ_cons,
          upToPanic_of_panic panic, upToPanic_of_panic panic]

theorem upToPanic_upToPanic (items : List Item) : upToPanic (upToPanic items) = upToPanic items := by
  induction items with
  | nil => rfl
  | cons item later ih =>
    cases panic : item.panic? with
    | none => rw [upToPanic_of_calm panic, upToPanic_of_calm panic, ih]
    | some cause => rw [upToPanic_of_panic panic, upToPanic_of_panic panic]

theorem calm_upToPanic_panics (items : List Item) :
    calm (upToPanic (panics items)) = [] ∧
      panics (upToPanic (panics items)) = upToPanic (panics items) := by
  induction items with
  | nil => exact ⟨rfl, rfl⟩
  | cons item later ih =>
    cases panic : item.panic? with
    | none =>
      have skipped : panics (item :: later) = panics later := by
        rw [panics, List.dropWhile_cons, panic]
        rfl
      rw [skipped]
      exact ih
    | some cause =>
      have stays : panics (item :: later) = item :: later := by
        rw [panics, List.dropWhile_cons, panic]
        rfl
      rw [stays, upToPanic_of_panic panic, calm, panics, List.takeWhile_cons, List.dropWhile_cons, panic]
      exact ⟨rfl, rfl⟩

theorem onItems_pass {step : Nat} (positive : 0 < step) (start : Nat) (items : List Item) :
    upToPanic ((Adaptor.pass 0 (step - 1)).onItems
        (upToPanic ((Adaptor.pass start 0).onItems items))) =
      upToPanic (every step ((calm items).drop start) ++ panics items) := by
  have calm' : ∀ item ∈ (calm items).drop start, item.panic? = none :=
    fun item member => panic?_of_mem_calm (List.mem_of_mem_drop member)
  have front : upToPanic ((Adaptor.pass start 0).onItems items) =
      (calm items).drop start ++ upToPanic (panics items) := by
    rw [Adaptor.onItems, Nat.zero_add, Slice.pick_drop, pick_one, upToPanic_append calm']
  have picked : ∀ item ∈ every step ((calm items).drop start), item.panic? = none := by
    intro item member
    obtain ⟨place, among, rfl⟩ := List.mem_map.1 member
    exact calm' _ (List.mem_zipIdx' (List.mem_filter.1 among).1 |>.2 ▸ List.getElem_mem _)
  obtain ⟨none, all⟩ := calm_upToPanic_panics items
  rw [front, Adaptor.onItems, Nat.sub_add_cancel positive, calm_append calm', panics_append calm', none,
    all, List.append_nil, ← every_drop_eq_pick positive, List.drop_zero, upToPanic_append picked,
    upToPanic_append picked, upToPanic_upToPanic]

end Items

namespace Buffered

theorem last_eq_drop (count : Nat) (records : List Value) :
    last count records = records.drop (records.length - count) := by
  induction records using List.reverseRecOn with
  | nil => exact List.drop_nil.symm
  | append_singleton earlier record ih =>
    have step : last count (earlier ++ [record]) = keep count (last count earlier) record := by
      rw [last, List.foldl_append, List.foldl_cons, List.foldl_nil, ← last]
    rw [step, ih, keep, List.length_append, List.length_singleton, List.length_drop]
    rcases Nat.eq_zero_or_pos count with rfl | positive
    · simp
    rcases Nat.lt_or_ge earlier.length count with few | enough
    · have all : earlier.length - count = 0 := by omega
      have all' : earlier.length + 1 - count = 0 := by omega
      have room : ¬earlier.length - (earlier.length - count) = count := by omega
      rw [if_pos positive, if_neg room, all, all', List.drop_zero, List.drop_zero]
    · have full : earlier.length - (earlier.length - count) = count := by omega
      have next : earlier.length + 1 - count = earlier.length - count + 1 := by omega
      rw [if_pos positive, if_pos full, List.tail_drop, next, List.drop_append_of_le_length (by omega)]

theorem sort_eq_sortedBy (sort : StableSort) (key : Value → Evaluated Value) (reverse : Bool)
    (records : List Value) : Buffered.sort sort key reverse records = Items.sortedBy sort key reverse records := by
  rw [Buffered.sort, Items.sortedBy]
  cases records.mapM fun v => (do return (← key v, v) : Evaluated (Value × Value)) with
  | error e => rfl
  | ok keyed =>
    change Value.sortByKey sort reverse keyed = if _ then _ else _
    split
    · rename_i orderly
      rw [Value.sortByKey, Value.sortKeyed_eq_mergeSort orderly.1 orderly.2]
      rfl
    · rw [Value.sortByKey, Value.sortKeyed, Sorting.byKeys_eq fun _ _ => rfl, Items.sortedAsFarAsOrdered]
      dsimp only
      cases (sort.sorting keyed.length).run _ with
      | none => rfl
      | some order =>
        rw [Option.elim_some, Option.none_or]
        cases List.find? _ _ with
        | none => exact congrArg Except.ok (List.map_map ..)
        | some pair => rfl

end Buffered

namespace Value

theorem hide_eq_without (keys : List String) (v : Value) : v.hide keys = v.without keys := by
  cases v with
  | object fields =>
    rw [hide, without]
    congr 1
    induction keys generalizing fields with
    | nil => simp
    | cons key later ih =>
      rw [List.foldl_cons, ih, Fields.erase, List.filter_filter]
      refine List.filter_congr fun field _ => ?_
      simp [Bool.and_comm]
  | _ => rfl

theorem mergeWith_eq_changed {f : Value → Evaluated Value} {record : Value} (h : record.Canonical)
    (changes : (f record).Meets Canonical) :
    mergeWith f record = (f record).bind record.changed := by
  rw [mergeWith]
  cases given : f record with
  | error e => rfl
  | ok change =>
    have canonical := changes change given
    cases record with
    | object fields =>
      cases change with
      | object changes =>
        have merged := Fields.merge_eq_mergeSort (canonical_object.1 h).1 (canonical_object.1 canonical).1
        exact congrArg (fun fields => Except.ok (object fields)) merged
      | _ => rfl
    | _ => rfl

end Value

section Stages

variable {platform : Platform}

def Refines (adaptors : List Adaptor) (f : List Item → List Item) : Prop :=
  ∀ items, Items.Canonical items →
    adaptors.foldl (fun items a => Items.upToPanic (a.onItems items)) items = Items.upToPanic (f items)

/-- The stage cannot be built for one reason, or there are adaptors that do what it means. -/
inductive Agree : Evaluated (List Adaptor) → Evaluated (List Item → List Item) → Prop where
  | refused (e : EvalError) : Agree (.error e) (.error e)
  | built {adaptors : List Adaptor} {f : List Item → List Item} (h : Refines adaptors f) :
      Agree (.ok adaptors) (.ok f)

theorem Agree.bind {α : Type} {x : Evaluated α} {f : α → Evaluated (List Adaptor)}
    {g : α → Evaluated (List Item → List Item)} (h : ∀ a, Agree (f a) (g a)) :
    Agree (x >>= f) (x >>= g) := by
  cases x with
  | error e => exact .refused e
  | ok a => exact h a

theorem agree_singleton {a : Adaptor} {f : List Item → List Item}
    (h : ∀ items, Items.Canonical items → a.onItems items = f items) : Agree (.ok [a]) (.ok f) :=
  .built fun items canonical => congrArg Items.upToPanic (h items canonical)

theorem agree_gather {result result' : List Value → Evaluated (List Value)}
    (h : ∀ records, result records = result' records) :
    Agree (.ok [.gather true result []]) (.ok (Items.gathered result')) := by
  obtain rfl : result = result' := funext h
  exact agree_singleton fun _ _ => rfl

theorem map_bind_congr_canonical {f g : Value → Evaluated Value} {items : List Item}
    (h : ∀ v : Value, v.Canonical → f v = g v) (canonical : Items.Canonical items) :
    (items.map fun item => item.bind f) = items.map fun item => item.bind g := by
  refine List.map_congr_left fun item member => ?_
  cases item with
  | error e => rfl
  | ok v => exact h v (canonical v member)

theorem refines_slice {step : Nat} (positive : 0 < step) (start : Nat) (stop : Option Nat) :
    Refines ([.pass start 0, .pass 0 (step - 1)] ++
      (stop.map fun n => Adaptor.take (StageKind.sliceSize start n step)).toList)
        (Items.slice start stop step) := by
  intro items _
  rw [List.foldl_append, List.foldl_cons, List.foldl_cons, List.foldl_nil,
    Items.onItems_pass positive]
  cases stop with
  | none => rfl
  | some n =>
    have size : StageKind.sliceSize start n step = (n - start + step - 1) / step := by
      rw [StageKind.sliceSize, Nat.add_sub_assoc positive]
    rw [Items.slice, ← size]
    exact Items.upToPanic_take _ _

theorem StageKind.agree (kind : StageKind) (i : Invocation) :
    Agree (kind.adaptors platform i) (kind.meaning platform i) := by
  cases kind with
  | map => exact agree_singleton fun _ _ => rfl
  | filter => exact agree_singleton fun items _ => Items.filterMap_passing _ items
  | update =>
    exact agree_singleton fun items canonical => map_bind_congr_canonical
      (fun v h => Value.mergeWith_eq_changed h (i.callable.meets_eval h)) canonical
  | hide =>
    refine Agree.bind fun _ => agree_singleton fun items _ => List.map_congr_left fun item _ => ?_
    cases item with
    | error e => rfl
    | ok v => exact congrArg Except.ok (Value.hide_eq_without _ v)
  | sorted =>
    rw [adaptors, meaning]
    cases i.named.lookup "reverse" with
    | none => exact agree_gather (Buffered.sort_eq_sortedBy _ _ _)
    | some e => exact Agree.bind fun reverse => agree_gather (Buffered.sort_eq_sortedBy _ _ _)
  | unique => exact agree_singleton fun items _ => Items.fresh_eq_distinct _ items
  | first => exact Agree.bind fun _ => Agree.bind fun _ => agree_singleton fun _ _ => rfl
  | last =>
    refine Agree.bind fun _ => Agree.bind fun count => agree_singleton fun items _ => ?_
    rw [Adaptor.onItems]
    by_cases room : count ≤ platform.capacity
    · rw [if_pos (decide_eq_true room), if_neg (Nat.not_lt.2 room)]
      simp only [Buffered.last_eq_drop, List.reverse_nil, List.nil_append]
    · rw [if_neg (by simpa using room), if_pos (Nat.not_le.1 room)]
  | islice =>
    refine Agree.bind fun parameters => ?_
    rw [sliceAdaptors]
    refine Agree.bind fun bounds => ?_
    obtain ⟨start, stop, step⟩ := bounds
    by_cases zero : step = 0
    · simp only [if_pos zero]
      exact .refused _
    · simp only [if_neg zero]
      have refines := refines_slice (Nat.pos_of_ne_zero zero) start stop
      cases stop <;> exact .built refines
  | reduceList => exact agree_gather fun _ => rfl
  | yieldAll => exact agree_singleton fun items _ => Items.flatMap_expanded _ items

theorem Invocation.agree (name : String) (i : Invocation) :
    Agree (i.adaptors platform name) (i.meaning platform name) := by
  rw [Invocation.adaptors, Invocation.meaning]
  cases i.named.find? fun option => !StageKind.takesOption name option.1 with
  | some option => exact .refused _
  | none =>
    cases StageKind.ofName? name with
    | none => exact .refused _
    | some kind => exact kind.agree i

theorem Stage.agree (stage : Stage) : Agree (stage.build platform) (stage.meaning platform) := by
  cases stage with
  | reference name => exact Invocation.passthrough.agree name
  | call c =>
    rw [build, meaning]
    split
    · exact c.invocation.agree c.name
    · exact .refused _

/-- A stage that is built gives what it means, if its records are canonical, and keeps them so. -/
theorem Stage.gives_apply (stage : Stage) {origin : Source} {r : Records} {items : List Item}
    (h : r.Gives origin items) (canonical : Items.Canonical items) :
    (∃ cause, stage.apply platform r = .error cause ∧ stage.onItems platform items = .error cause) ∨
      ∃ r' items', stage.apply platform r = .ok r' ∧ stage.onItems platform items = .ok items' ∧
        r'.Gives origin items' ∧ Items.Canonical items' := by
  have kept {f : List Item → List Item} (means : stage.meaning platform = .ok f) :
      Items.Canonical (f items) := Stage.canonical_meaning means canonical
  have agree : Agree (stage.build platform) (stage.meaning platform) := stage.agree
  rw [apply, onItems]
  generalize stage.build platform = adaptors? at agree
  generalize stage.meaning platform = meaning? at agree kept
  cases agree with
  | refused e =>
    cases e with
    | panic cause => exact .inl ⟨cause, rfl, rfl⟩
    | _ =>
      exact .inr ⟨_, _, rfl, rfl, .once rfl, fun v member => by cases List.mem_singleton.1 member⟩
  | built refines =>
    refine .inr ⟨_, _, rfl, rfl, ?_, (kept rfl).upToPanic⟩
    rw [← refines items canonical]
    exact h.foldl _

theorem Stage.gives_foldlM (stages : List Stage) {origin : Source} {r : Records} {items : List Item}
    (h : r.Gives origin items) (canonical : Items.Canonical items) :
    (∃ cause, stages.foldlM (Stage.apply platform) r = .error cause ∧
        stages.foldlM (fun items stage => stage.onItems platform items) items = .error cause) ∨
      ∃ r' items', stages.foldlM (Stage.apply platform) r = .ok r' ∧
        stages.foldlM (fun items stage => stage.onItems platform items) items = .ok items' ∧
        r'.Gives origin items' := by
  induction stages generalizing r items with
  | nil => exact .inr ⟨r, items, rfl, rfl, h⟩
  | cons stage later ih =>
    rw [List.foldlM_cons, List.foldlM_cons]
    rcases @Stage.gives_apply platform stage _ _ _ h canonical with
      ⟨cause, applied, made⟩ | ⟨r', items', applied, made, h', canonical'⟩
    · rw [applied, made]
      exact .inl ⟨cause, rfl, rfl⟩
    · rw [applied, made]
      exact ih h' canonical'

end Stages

namespace Pipeline

/-- Pulling the pipeline until its end, or up to a panic, gives these items, unless building one of the
stages panics. -/
inductive Gives (platform : Platform) (p : Pipeline) (origin : Source) :
    Except Panic (List Item) → Prop where
  | panics {cause : Panic} (h : p.start platform = .error cause) : Gives platform p origin (.error cause)
  | items {r : Records} {items : List Item} (h : p.start platform = .ok r)
      (gives : r.Gives origin items) : Gives platform p origin (.ok items)

variable {platform : Platform} {p : Pipeline} {origin : Source}

theorem Gives.unique {outcome outcome' : Except Panic (List Item)} (h : p.Gives platform origin outcome)
    (h' : p.Gives platform origin outcome') : outcome = outcome' := by
  cases h with
  | panics h =>
    cases h' with
    | panics again => exact congrArg _ (Except.error.inj (h.symm.trans again))
    | items again _ => cases h.symm.trans again
  | items h gives =>
    cases h' with
    | panics again => cases h.symm.trans again
    | items again gives' =>
      cases h.symm.trans again
      rw [gives.unique gives']

/-- Pulling a pipeline on records until it ends gives what its stages make of the list of records,
one stage after the other. -/
theorem gives_iff_foldl (platform : Platform) (p : Pipeline) (records : List Value)
    (canonical : ∀ v ∈ records, v.Canonical) (outcome : Except Panic (List Item)) :
    p.Gives platform (.ofList records) outcome ↔
      outcome = p.stages.foldlM (fun items stage => stage.onItems platform items)
        (records.map .ok) := by
  have gives : p.Gives platform (.ofList records)
      (p.stages.foldlM (fun items stage => stage.onItems platform items) (records.map .ok)) := by
    have start : p.start platform = p.stages.foldlM (Stage.apply platform) (.source 0) := rfl
    have canonical' : Items.Canonical (records.map .ok) := by
      intro v member
      obtain ⟨record, among, same⟩ := List.mem_map.1 member
      cases same
      exact canonical v among
    rcases Stage.gives_foldlM p.stages (Records.gives_source records 0) canonical' with
      ⟨cause, started, folded⟩ | ⟨r, items, started, folded, given⟩
    · rw [List.drop_zero] at folded
      rw [folded]
      exact .panics (start.trans started)
    · rw [List.drop_zero] at folded
      rw [folded]
      exact .items (start.trans started) given
  exact ⟨fun h => h.unique gives, fun same => same ▸ gives⟩

/-- The first two of three negations, of which the second is an error. -/
theorem gives_iff_foldl_negations :
    let platform := Platform.reference ⟨0, 0, 0⟩
    let p : Pipeline := ⟨[.call ⟨"map", ⟨.tuple [.negate .record], []⟩, []⟩, .first (.integer 2)]⟩
    (∀ v ∈ [Value.integer 1, .null, .integer 3], v.Canonical) ∧
    p.Gives platform (.ofList [.integer 1, .null, .integer 3])
      (.ok [.ok (.integer (-1)), Value.null.negate]) := by
  intro platform p
  have canonical : ∀ v ∈ [Value.integer 1, .null, .integer 3], v.Canonical := by simp
  exact ⟨canonical, (gives_iff_foldl platform p _ canonical _).2 rfl⟩

/-- The last records are asked for, more of them than a buffer can be made for, and there is a panic
instead of all the records. -/
theorem gives_last_panics :
    let platform := Platform.reference ⟨0, 0, 0⟩
    let p : Pipeline := ⟨[.call ⟨"last", ⟨.tuple [.integer 9223372036854775807], []⟩, []⟩]⟩
    p.Gives platform (.ofList [.integer 1, .integer 2, .integer 3]) (.ok [.error (.panic .buffer)]) ∧
      ¬p.Gives platform (.ofList [.integer 1, .integer 2, .integer 3])
        (.ok [.ok (.integer 1), .ok (.integer 2), .ok (.integer 3)]) := by
  intro platform p
  have panics : p.Gives platform (.ofList [.integer 1, .integer 2, .integer 3])
      (.ok [.error (.panic .buffer)]) := by
    let buffer : Adaptor :=
      .gather false (fun records => .ok (Buffered.last 9223372036854775807 records)) []
    have started : p.start platform = .ok (.adapted buffer (.source 0)) := rfl
    exact .items started (.panics (Records.next_ready (a := buffer) rfl _) rfl)
  exact ⟨panics, fun all => by cases panics.unique all⟩

end Pipeline

end RecordPipeline
