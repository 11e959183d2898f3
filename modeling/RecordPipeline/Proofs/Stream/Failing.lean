import RecordPipeline.Pipeline.Compiler
import RecordPipeline.Proofs.Stream.Refinement

/-!
Pipelines with a stage that cannot be built. Such a stage looks at nothing that comes in and hands on
its error as the only item, so only the last of them matters, and its error is what comes out at the
end, unless a stage behind it leaves out the first item: then the stages behind that one have nothing
to work on, and the error is gone.
-/

namespace RecordPipeline

/-- Whether a stage that can be built leaves out the item that comes in first, whatever it is. -/
def StageKind.leavesOutFirst (platform : Platform) (kind : StageKind) (i : Invocation) : Bool :=
  match kind with
  | first => (i.callable.constants platform >>= singleCount first).toOption == some 0
  | islice =>
    (i.callable.constants platform >>= sliceBounds islice).toOption.any fun (start, stop, _) =>
      start != 0 || stop == some 0
  | _ => false

def Invocation.leavesOutFirst (platform : Platform) (name : String) (i : Invocation) : Bool :=
  (StageKind.ofName? name).any fun kind => kind.leavesOutFirst platform i

/-- Whether there is room for the records that the stage holds. -/
def StageKind.roomy (platform : Platform) (kind : StageKind) (i : Invocation) : Bool :=
  match kind with
  | last => (i.callable.constants platform >>= singleCount last).toOption.all (· ≤ platform.capacity)
  | _ => true

def Invocation.roomy (platform : Platform) (name : String) (i : Invocation) : Bool :=
  (StageKind.ofName? name).all fun kind => kind.roomy platform i

namespace Stage

def leavesOutFirst (platform : Platform) : Stage → Bool
  | reference name => Invocation.passthrough.leavesOutFirst platform name
  | call c => c.invocation.leavesOutFirst platform c.name

def roomy (platform : Platform) : Stage → Bool
  | reference name => Invocation.passthrough.roomy platform name
  | call c => c.invocation.roomy platform c.name

end Stage

section Errors

variable {platform : Platform} {e : EvalError}

theorem Items.slice_error (start : Nat) (stop : Option Nat) {step : Nat} (positive : 0 < step)
    (calm : Item.panic? (.error e) = none) :
    slice start stop step [.error e] = if start != 0 || stop == some 0 then [] else [.error e] := by
  have none : panics [.error e] = [] := by rw [panics, List.dropWhile_cons, calm]; rfl
  have all : Items.calm [.error e] = [.error e] := by
    rw [Items.calm, List.takeWhile_cons, calm]
    rfl
  have alone : every step [(.error e : Item)] = [.error e] := by simp [every]
  cases start with
  | succ start => cases stop <;> simp [slice, every, none, all]
  | zero =>
    cases stop with
    | none => simp [slice, none, all, alone]
    | some stop =>
      have size : (stop + step - 1) / step = 0 ↔ stop = 0 := by
        rw [Nat.div_eq_zero_iff]
        omega
      have sliced : slice 0 (some stop) step [.error e] =
          [.error e].take ((stop + step - 1) / step) := by
        simp [slice, none, all, alone]
      rw [sliced]
      by_cases empty : stop = 0
      · rw [size.2 empty]
        simp [empty]
      · obtain ⟨count, more⟩ := Nat.exists_eq_succ_of_ne_zero (mt size.1 empty)
        simp [more, empty]

theorem StageKind.meaning_error {kind : StageKind} {i : Invocation} {f : List Item → List Item}
    (means : kind.meaning platform i = .ok f) (roomy : kind.roomy platform i = true)
    (calm : Item.panic? (.error e) = none) :
    f [.error e] = if kind.leavesOutFirst platform i then [] else [.error e] := by
  cases kind with
  | map | filter | update | unique | reduceList | yieldAll =>
    cases means
    rfl
  | hide =>
    obtain ⟨parameters, -, means⟩ := except_bind_ok.1 means
    cases means
    rfl
  | sorted =>
    rw [meaning] at means
    split at means
    · obtain ⟨reverse, -, means⟩ := except_bind_ok.1 means
      cases means
      rfl
    · cases means
      rfl
  | last =>
    obtain ⟨parameters, values, means⟩ := except_bind_ok.1 means
    obtain ⟨count, counted, means⟩ := except_bind_ok.1 means
    cases means
    have known : (i.callable.constants platform >>= singleCount last) = .ok count :=
      except_bind_ok.2 ⟨parameters, values, counted⟩
    rw [StageKind.roomy, known] at roomy
    have room : count ≤ platform.capacity := of_decide_eq_true roomy
    dsimp only
    rw [if_neg (Nat.not_lt.2 room)]
    rfl
  | first =>
    obtain ⟨parameters, values, means⟩ := except_bind_ok.1 means
    obtain ⟨count, counted, means⟩ := except_bind_ok.1 means
    cases means
    have known : (i.callable.constants platform >>= singleCount first) = .ok count :=
      except_bind_ok.2 ⟨parameters, values, counted⟩
    rw [leavesOutFirst, known]
    cases count <;> simp [Except.toOption]
  | islice =>
    obtain ⟨parameters, values, means⟩ := except_bind_ok.1 means
    obtain ⟨⟨start, stop, step⟩, bounds, means⟩ := except_bind_ok.1 means
    have known : (i.callable.constants platform >>= sliceBounds islice) = .ok (start, stop, step) :=
      except_bind_ok.2 ⟨parameters, values, bounds⟩
    dsimp only at means
    split at means
    · cases means
    · rename_i nonzero
      cases means
      rw [Items.slice_error start stop (Nat.pos_of_ne_zero nonzero) calm, leavesOutFirst, known]
      rfl

theorem Invocation.meaning_error {name : String} {i : Invocation} {f : List Item → List Item}
    (means : i.meaning platform name = .ok f) (roomy : i.roomy platform name = true)
    (calm : Item.panic? (.error e) = none) :
    f [.error e] = if i.leavesOutFirst platform name then [] else [.error e] := by
  rw [meaning] at means
  split at means
  · cases means
  · split at means
    · rename_i kind found
      rw [Invocation.roomy, found] at roomy
      rw [StageKind.meaning_error means roomy calm, leavesOutFirst, found, Option.any_some]
    · cases means

theorem Stage.onItems_error {stage : Stage} {adaptors : List Adaptor}
    (built : stage.build platform = .ok adaptors) (roomy : stage.roomy platform = true)
    (calm : Item.panic? (.error e) = none) :
    stage.onItems platform [.error e] =
      .ok (if stage.leavesOutFirst platform then [] else [.error e]) := by
  have agree : Agree (stage.build platform) (stage.meaning platform) := stage.agree
  rw [built] at agree
  rw [onItems]
  cases means : stage.meaning platform with
  | error e' =>
    rw [means] at agree
    cases agree
  | ok f =>
    have alone : f [.error e] = if stage.leavesOutFirst platform then [] else [.error e] := by
      cases stage with
      | reference name =>
        rw [meaning] at means
        exact Invocation.meaning_error means roomy calm
      | call c =>
        rw [meaning] at means
        split at means
        · exact Invocation.meaning_error means roomy calm
        · cases means
    dsimp only
    rw [alone]
    split
    · rfl
    · rw [Items.upToPanic_of_calm calm]
      rfl

theorem Stage.apply_of_error {stage : Stage} (fails : stage.build platform = .error e)
    (calm : Item.panic? (.error e) = none) (r : Records) : stage.apply platform r = .ok (.once e) := by
  rw [apply, fails]
  cases e with
  | panic cause => cases calm
  | _ => rfl

end Errors

namespace Records

variable {origin : Source}

theorem collect_of_gives {r : Records} {items : List Item} (h : r.Gives origin items)
    (held : List Value) :
    r.collect origin held = some ((items.mapM id).map (held.reverse ++ ·)) := by
  induction h generalizing held with
  | ended next =>
    rw [collect_eq, collectFrom, next]
    exact congrArg (fun records => some (Except.ok records)) (List.append_nil _).symm
  | panics next panic =>
    cases Item.eq_of_panic? panic
    rw [collect_eq, collectFrom, next]
    rfl
  | @item _ _ item later next calm _ ih =>
    rw [collect_eq, collectFrom, next]
    cases item with
    | error e => rfl
    | ok v =>
      change collect origin (v :: held) _ = _
      rw [ih, List.mapM_cons]
      cases later.mapM id with
      | error e => rfl
      | ok records =>
        exact congrArg (fun records => some (Except.ok records)) (by simp)

end Records

namespace Pipeline

variable {platform : Platform}

def summary : Except Panic (List Item) → Evaluated (List Value)
  | .ok items => items.mapM id
  | .error cause => .error (.panic cause)

theorem results_of_foldlM {p : Pipeline} {records : List Value} {front back : List Stage} {r : Records}
    {items : List Item} (split : p.stages = front ++ back)
    (start : front.foldlM (Stage.apply platform) (.source 0) = .ok r)
    (gives : r.Gives (.ofList records) items) (canonical : Items.Canonical items) :
    p.results platform records = some (summary
      (back.foldlM (fun items stage => stage.onItems platform items) items)) := by
  have started : p.start platform = back.foldlM (Stage.apply platform) r := by
    rw [Pipeline.start, split, List.foldlM_append, start]
    rfl
  rw [results, started]
  rcases Stage.gives_foldlM back gives canonical with
    ⟨cause, applied, folded⟩ | ⟨r', items', applied, folded, gives'⟩
  · rw [applied, folded]
    rfl
  · rw [applied, folded]
    dsimp only
    rw [Records.collect_of_gives gives', summary]
    cases items'.mapM id <;> rfl

/-- The stages behind the last one that cannot be built, if an error is all they are given: nothing
is left of it behind the first of them that leaves it out. -/
theorem foldlM_error {stages : List Stage} {e : EvalError}
    (sound : ∀ stage ∈ stages, ∃ adaptors, stage.build platform = .ok adaptors)
    (roomy : ∀ stage ∈ stages, stage.roomy platform = true) (calm : Item.panic? (.error e) = none) :
    stages.foldlM (fun items stage => stage.onItems platform items) [.error e] =
      match stages.dropWhile fun stage => !stage.leavesOutFirst platform with
      | [] => .ok [.error e]
      | _ :: later => later.foldlM (fun items stage => stage.onItems platform items) [] := by
  induction stages with
  | nil => rfl
  | cons stage later ih =>
    obtain ⟨⟨adaptors, built⟩, sound⟩ := List.forall_mem_cons.1 sound
    obtain ⟨room, roomy⟩ := List.forall_mem_cons.1 roomy
    rw [List.foldlM_cons, Stage.onItems_error built room calm, List.dropWhile_cons]
    by_cases leaves : stage.leavesOutFirst platform = true
    · simp only [leaves, if_true, Bool.not_true, Bool.false_eq_true, if_false]
      rfl
    · simp only [leaves, Bool.not_false, if_true, Bool.false_eq_true, if_false]
      exact ih sound roomy

theorem exists_last_broken {stages : List Stage}
    (broken : ∃ stage ∈ stages, ∃ e, stage.build platform = .error e) :
    ∃ front stage back e, stages = front ++ stage :: back ∧ stage.build platform = .error e ∧
      ∀ other ∈ back, ∃ adaptors, other.build platform = .ok adaptors := by
  induction stages with
  | nil => simp at broken
  | cons first later ih =>
    by_cases behind : ∃ stage ∈ later, ∃ e, stage.build platform = .error e
    · obtain ⟨front, stage, back, e, rfl, fails, sound⟩ := ih behind
      exact ⟨first :: front, stage, back, e, rfl, fails, sound⟩
    · obtain ⟨stage, member, e, fails⟩ := broken
      rcases List.mem_cons.1 member with rfl | member
      · refine ⟨[], stage, later, e, rfl, fails, fun other inside => ?_⟩
        cases built : other.build platform with
        | ok adaptors => exact ⟨adaptors, rfl⟩
        | error e' => exact absurd ⟨other, inside, e', built⟩ behind
      · exact absurd ⟨stage, member, e, fails⟩ behind

theorem exists_foldlM_apply {stages : List Stage} (r : Records)
    (starts : ∀ stage ∈ stages, ∀ cause, stage.build platform ≠ .error (.panic cause)) :
    ∃ r', stages.foldlM (Stage.apply platform) r = .ok r' := by
  induction stages generalizing r with
  | nil => exact ⟨r, rfl⟩
  | cons stage later ih =>
    obtain ⟨here, others⟩ := List.forall_mem_cons.1 starts
    rw [List.foldlM_cons]
    cases applied : stage.apply platform r with
    | ok next => exact ih next others
    | error cause =>
      rw [Stage.apply] at applied
      split at applied
      · cases applied
      · rename_i found
        exact absurd found (here _)
      · cases applied

/-- The error of the last stage that cannot be built is the result on every input, unless a stage
behind it leaves out the first item; then the result is what the stages behind that one make of no
records at all. -/
theorem results_of_broken (platform : Platform) (p : Pipeline)
    (broken : ∃ stage ∈ p.stages, ∃ e, stage.build platform = .error e)
    (starts : ∀ stage ∈ p.stages, ∀ cause, stage.build platform ≠ .error (.panic cause)) :
    ∃ front stage back e, p.stages = front ++ stage :: back ∧ stage.build platform = .error e ∧
      (∀ other ∈ back, ∃ adaptors, other.build platform = .ok adaptors) ∧
      ((∀ other ∈ back, other.roomy platform = true) → ∀ records,
        p.results platform records =
          match back.dropWhile fun other => !other.leavesOutFirst platform with
          | [] => some (.error e)
          | _ :: later => results platform ⟨later⟩ []) := by
  obtain ⟨front, stage, back, e, split, fails, sound⟩ := exists_last_broken broken
  refine ⟨front, stage, back, e, split, fails, sound, fun roomy records => ?_⟩
  have calm : Item.panic? (.error e) = none := by
    cases panic : Item.panic? (.error e) with
    | none => rfl
    | some cause =>
      cases Item.eq_of_panic? panic
      exact absurd fails (starts stage (by simp [split]) cause)
  obtain ⟨r, started⟩ := exists_foldlM_apply (.source 0) fun other member =>
    starts other (by simp [split, show other ∈ front from member])
  have start : (front ++ [stage]).foldlM (Stage.apply platform) (.source 0) = .ok (.once e) := by
    rw [List.foldlM_append, started]
    change (stage.apply platform r >>= fun r => pure r) = _
    rw [Stage.apply_of_error fails calm]
    rfl
  have split' : p.stages = (front ++ [stage]) ++ back := by simp [split]
  have alone : Items.Canonical [.error e] := fun v member => by cases List.mem_singleton.1 member
  rw [results_of_foldlM split' start (.once calm) alone, foldlM_error sound roomy calm]
  cases back.dropWhile fun other => !other.leavesOutFirst platform with
  | nil => rfl
  | cons leaving later =>
    have none : Items.Canonical [] := nofun
    have whole : (Pipeline.mk later).stages = [] ++ later := rfl
    exact (results_of_foldlM whole rfl (Records.gives_source [] 0) none).symm

/-- An unknown stage and an option that its stage does not take, with the records of the last one
gathered behind it. -/
theorem results_of_broken_option :
    let platform := Platform.reference ⟨0, 0, 0⟩
    let stages := [Stage.reference "explode", .call ⟨"map", ⟨.passthrough, [("reverse", .null)]⟩, []⟩,
      .reference "reduce_list"]
    (∃ stage ∈ stages, ∃ e, stage.build platform = .error e) ∧
    (∀ stage ∈ stages, ∀ cause, stage.build platform ≠ .error (.panic cause)) ∧
    ∃ front stage back e, stages = front ++ stage :: back ∧ stage.build platform = .error e ∧
      (∀ other ∈ back, ∃ adaptors, other.build platform = .ok adaptors) ∧
      ((∀ other ∈ back, other.roomy platform = true) → ∀ records,
        results platform ⟨stages⟩ records =
          match back.dropWhile fun other => !other.leavesOutFirst platform with
          | [] => some (.error e)
          | _ :: later => results platform ⟨later⟩ []) := by
  intro platform stages
  have unknown : (Stage.reference "explode").build platform = .error (.unknownStage "explode") := by rfl
  have broken : ∃ stage ∈ stages, ∃ e, stage.build platform = .error e :=
    ⟨_, List.mem_cons_self .., _, unknown⟩
  have starts : ∀ stage ∈ stages, ∀ cause, stage.build platform ≠ .error (.panic cause) := by
    intro stage member cause panics
    rcases List.mem_cons.1 member with rfl | member
    · cases unknown.symm.trans panics
    rcases List.mem_cons.1 member with rfl | member
    · cases panics
    · cases List.mem_singleton.1 member
      cases panics
  exact ⟨broken, starts, results_of_broken platform ⟨stages⟩ broken starts⟩

/-- The error of an unknown stage is an item, and a stage that takes no items leaves it out. -/
theorem first_zero_hides_unknown_stage :
    let platform := Platform.reference ⟨0, 0, 0⟩
    ∃ p, compile "explode, first(0)" = .ok p ∧
      (∃ stage ∈ p.stages, stage.build platform = .error (.unknownStage "explode")) ∧
      p.results platform [.integer 1] = some (.ok []) := by
  intro platform
  refine ⟨⟨[.reference "explode", .call ⟨"first", ⟨.tuple [.integer 0], []⟩, []⟩]⟩, by cbv,
    ⟨_, List.mem_cons_self .., by rfl⟩, ?_⟩
  have start : Pipeline.start platform
      ⟨[.reference "explode", .call ⟨"first", ⟨.tuple [.integer 0], []⟩, []⟩]⟩ =
        .ok (.adapted (.take 0) (.once (EvalError.unknownStage "explode"))) := by rfl
  have nothing : Records.Gives (.ofList [.integer 1])
      (.adapted (.take 0) (.once (EvalError.unknownStage "explode"))) [] :=
    .ended (Records.next_ready (a := .take 0) rfl _)
  rw [results, start]
  exact Records.collect_of_gives nothing []

end Pipeline

end RecordPipeline
