import RecordPipeline.Proofs.Stream.Meaning
import RecordPipeline.Proofs.Stream.Pulling

/-!
What adaptors make of lists. Whatever stream gives the items of a list, an adaptor on it gives those of
another, which one reaction after the other brings about.
-/

namespace RecordPipeline

namespace Items

variable {item : Item} {items later : List Item} {cause : Panic}

theorem upToPanic_of_panic (panic : item.panic? = some cause) (later : List Item) :
    upToPanic (item :: later) = [item] := by
  rw [upToPanic, panic, Option.isSome_some, if_pos rfl]

theorem upToPanic_of_calm (calm : item.panic? = none) (later : List Item) :
    upToPanic (item :: later) = item :: upToPanic later := by
  rw [upToPanic, calm, Option.isSome_none, if_neg Bool.false_ne_true]

theorem gathered_ok (result : List Value → Evaluated (List Value)) (v : Value) (later : List Item) :
    gathered result (.ok v :: later) = gathered (fun records => result (v :: records)) later := by
  rw [gathered, gathered, List.mapM_cons]
  cases later.mapM id <;> rfl

theorem gathered_error (result : List Value → Evaluated (List Value)) (e : EvalError)
    (later : List Item) : gathered result (.error e :: later) = [.error e] := by
  rw [gathered, List.mapM_cons]
  rfl

end Items

namespace Adaptor

def fresh (key : Value → Evaluated String) : List String → List Item → List Item
  | _, [] => []
  | seen, .error e :: later => .error e :: fresh key seen later
  | seen, .ok v :: later =>
    match key v with
    | .ok k =>
      if seen.contains k then fresh key seen later else .ok v :: fresh key (k :: seen) later
    | .error e => .error e :: fresh key seen later

def passing (test : Value → Evaluated Bool) : Item → Option Item
  | .error e => some (.error e)
  | .ok v =>
    match test v with
    | .error e => some (.error e)
    | .ok verdict => if verdict then some (.ok v) else none

def expanded (f : Value → Evaluated (List Value)) (item : Item) : List Item :=
  match item.bind f with
  | .ok parts => parts.map .ok
  | .error e => [.error e]

def onItems : Adaptor → List Item → List Item
  | map f, items => items.map fun item => item.bind f
  | filter test, items => items.filterMap (passing test)
  | unique key seen, items => fresh key seen items
  | expand f front, items => front.map .ok ++ items.flatMap (expanded f)
  | pass ahead gap, items => Slice.pick (gap + 1) ahead none (Items.calm items) ++ Items.panics items
  | take left, items => items.take left
  | gather roomy result held, items =>
    if roomy then Items.gathered (fun records => result (held.reverse ++ records)) items
    else [.error (.panic .buffer)]
  | output rest, _ => rest.map .ok

/-- The adaptors that have no answer of their own. -/
inductive Asks : Adaptor → Prop where
  | map (f : Value → Evaluated Value) : Asks (map f)
  | filter (test : Value → Evaluated Bool) : Asks (filter test)
  | unique (key : Value → Evaluated String) (seen : List String) : Asks (unique key seen)
  | expand (f : Value → Evaluated (List Value)) : Asks (expand f [])
  | pass (ahead gap : Nat) : Asks (pass ahead gap)
  | take (left : Nat) : Asks (take (left + 1))
  | gather (result : List Value → Evaluated (List Value)) (held : List Value) :
      Asks (gather true result held)

variable {a a' : Adaptor} {item : Item} {later : List Item} {cause : Panic}

theorem Asks.ready? (h : a.Asks) : a.ready? = none := by
  cases h <;> rfl

theorem onItems_onEnd (asks : a.Asks) :
    a.onItems [] = a.onEnd.1.elim [] fun item => item :: a.onEnd.2.onItems [] := by
  cases asks with
  | gather result held =>
    simp only [onItems, onEnd, if_true, Items.gathered, List.mapM_nil, pure, Except.pure,
      List.append_nil]
    cases result held.reverse with
    | error e => rfl
    | ok records => cases records <;> rfl
  | _ => rfl

theorem onItems_panic (asks : a.Asks) (panic : item.panic? = some cause) : a.onItems [item] = [item] := by
  cases Item.eq_of_panic? panic
  cases asks with
  | take left => rw [onItems, List.take_succ_cons, List.take_nil]
  | _ => rfl

end Adaptor

def Reaction.onItems : Reaction → List Item → List Item
  | answer item? a, later => item?.toList ++ a.onItems later
  | again a, later => a.onItems later

namespace Adaptor

variable {a a' : Adaptor} {item : Item} {later : List Item} {cause : Panic}

theorem onItems_ok (asks : a.Asks) (v : Value) (later : List Item) :
    a.onItems (.ok v :: later) = (a.onRecord v).onItems later := by
  cases asks with
  | map f => rfl
  | filter test =>
    simp only [onItems, onRecord, passing, List.filterMap_cons]
    cases test v with
    | error e => rfl
    | ok verdict => cases verdict <;> rfl
  | unique key seen =>
    simp only [onItems, onRecord, fresh]
    cases key v with
    | error e => rfl
    | ok k =>
      by_cases known : seen.contains k = true
      · simp only [if_pos known]
        rfl
      · simp only [if_neg known]
        rfl
  | expand f =>
    simp only [onItems, onRecord, List.map_nil, List.nil_append, List.flatMap_cons, expanded]
    rw [show (Except.ok v : Item).bind f = f v from rfl]
    cases f v with
    | error e => rfl
    | ok parts => cases parts <;> rfl
  | pass ahead gap =>
    cases ahead <;> rfl
  | take left => rfl
  | gather result held =>
    simp only [onItems, onRecord, if_true, Items.gathered_ok, Reaction.onItems, List.reverse_cons,
      List.append_assoc, List.singleton_append]

theorem onItems_error (asks : a.Asks) {e : EvalError} (calm : Item.panic? (.error e) = none)
    (later : List Item) : a.onItems (.error e :: later) = (a.onError e).onItems later := by
  cases asks with
  | pass ahead gap =>
    simp only [onItems, Items.calm, Items.panics, List.takeWhile_cons, List.dropWhile_cons, calm]
    cases ahead <;> rfl
  | gather result held =>
    simp only [onItems, if_true, Items.gathered_error]
    rfl
  | _ => rfl

theorem onItems_react (asks : a.Asks) (calm : item.panic? = none) (later : List Item) :
    a.onItems (item :: later) = (a.react (some item)).onItems later := by
  cases item with
  | ok v => exact onItems_ok asks v later
  | error e => rw [react_error calm, onItems_error asks calm]

theorem exists_output_of_onEnd (last : a.onEnd = (some item, a')) : ∃ rest, a' = output rest := by
  cases a with
  | gather roomy result held =>
    rw [onEnd] at last
    split at last
    · cases last
    · cases last
      exact ⟨_, rfl⟩
    · cases last
      exact ⟨[], rfl⟩
  | _ => cases last

end Adaptor

namespace Records

/-- Asking until the end, or up to a panic, gives these items. -/
inductive Gives (origin : Source) : Records → List Item → Prop where
  | ended {r r' : Records} (h : r.next origin = some (none, r')) : Gives origin r []
  | panics {r r' : Records} {item : Item} {cause : Panic} (h : r.next origin = some (some item, r'))
      (panic : item.panic? = some cause) : Gives origin r [item]
  | item {r r' : Records} {item : Item} {later : List Item} (h : r.next origin = some (some item, r'))
      (calm : item.panic? = none) (rest : Gives origin r' later) : Gives origin r (item :: later)

namespace Gives

variable {origin : Source} {r r' inner inner' : Records} {items later : List Item} {item : Item}

theorem congr (same : r.next origin = r'.next origin) (h : Gives origin r' items) :
    Gives origin r items := by
  cases h with
  | ended h => exact .ended (same.trans h)
  | panics h panic => exact .panics (same.trans h) panic
  | item h calm rest => exact .item (same.trans h) calm rest

theorem unique (h : Gives origin r items) (h' : Gives origin r later) : items = later := by
  induction h generalizing later with
  | ended h =>
    cases h' with
    | ended _ => rfl
    | panics again _ | item again _ _ => cases h.symm.trans again
  | panics h panic =>
    cases h' with
    | ended again => cases h.symm.trans again
    | panics again _ =>
      cases h.symm.trans again
      rfl
    | item again calm _ =>
      cases h.symm.trans again
      cases panic.symm.trans calm
  | item h calm _ ih =>
    cases h' with
    | ended again => cases h.symm.trans again
    | panics again panic =>
      cases h.symm.trans again
      cases calm.symm.trans panic
    | item again _ rest =>
      cases h.symm.trans again
      rw [ih rest]

theorem cons (h : r.next origin = some (some item, r'))
    (rest : item.panic? = none → Gives origin r' (Items.upToPanic later)) :
    Gives origin r (Items.upToPanic (item :: later)) := by
  cases panic : item.panic? with
  | none =>
    rw [Items.upToPanic_of_calm panic]
    exact .item h panic (rest panic)
  | some cause =>
    rw [Items.upToPanic_of_panic panic]
    exact .panics h panic

theorem output (rest : List Value) (inner : Records) :
    Gives origin (adapted (.output rest) inner) (Items.upToPanic ((Adaptor.output rest).onItems [])) := by
  induction rest with
  | nil => exact .ended (next_ready (a := .output []) rfl inner)
  | cons v later ih =>
    exact cons (next_ready (a := .output (v :: later)) rfl inner) fun _ => ih

theorem of_asks {a : Adaptor}
    (h : ∀ {a : Adaptor}, a.Asks → Gives origin (adapted a inner) (Items.upToPanic (a.onItems items))) :
    Gives origin (adapted a inner) (Items.upToPanic (a.onItems items)) := by
  cases a with
  | map f => exact h (.map f)
  | filter test => exact h (.filter test)
  | unique key seen => exact h (.unique key seen)
  | expand f front =>
    induction front with
    | nil => exact h (.expand f)
    | cons v later ih => exact cons (next_ready (a := .expand f (v :: later)) rfl inner) fun _ => ih
  | pass ahead gap => exact h (.pass ahead gap)
  | take left =>
    cases left with
    | zero => exact .ended (next_ready (a := .take 0) rfl inner)
    | succ left => exact h (.take left)
  | gather roomy result held =>
    cases roomy with
    | true => exact h (.gather result held)
    | false => exact .panics (next_ready (a := .gather false result held) rfl inner) rfl
  | output rest => exact output rest inner

/-- An adaptor on a stream gives what it makes of the items of the stream. -/
theorem adapted (h : Gives origin inner items) (a : Adaptor) :
    Gives origin (adapted a inner) (Items.upToPanic (a.onItems items)) := by
  induction h generalizing a with
  | @ended inner inner' front =>
    refine of_asks fun {a} asks => ?_
    have answer := next_answer asks.ready? front rfl
    rw [Adaptor.onItems_onEnd asks]
    cases last : a.onEnd with
    | mk item? a' =>
      rw [last] at answer
      cases item? with
      | none => exact .ended answer
      | some item =>
        obtain ⟨rest, rfl⟩ := Adaptor.exists_output_of_onEnd last
        exact cons answer fun _ => output rest inner'
  | @panics inner inner' item cause front panic =>
    refine of_asks fun {a} asks => ?_
    rw [Adaptor.onItems_panic asks panic, Items.upToPanic_of_panic panic]
    cases Item.eq_of_panic? panic
    exact .panics (next_answer asks.ready? front rfl) rfl
  | @item inner inner' item later front calm _ ih =>
    refine of_asks fun {a} asks => ?_
    rw [Adaptor.onItems_react asks calm]
    cases reacts : a.react (some item) with
    | answer item? a' =>
      cases item? with
      | none => exact absurd reacts (a.react_item item a')
      | some out => exact cons (next_answer asks.ready? front reacts) fun _ => ih a'
    | again a' => exact congr (next_again asks.ready? front reacts) (ih a')

end Gives

theorem Gives.once {origin : Source} {e : EvalError} (calm : Item.panic? (.error e) = none) :
    Gives origin (.once e) [.error e] :=
  .item (next_of_answers (.once (some e))) calm (.ended (next_of_answers (.once none)))

theorem gives_source (records : List Value) (taken : Nat) :
    Gives (.ofList records) (.source taken) ((records.drop taken).map .ok) := by
  cases found : records[taken]? with
  | none =>
    rw [List.drop_eq_nil_of_le (List.getElem?_eq_none_iff.1 found)]
    exact .ended (next_of_answers (.spent found))
  | some record =>
    obtain ⟨inside, rfl⟩ := List.getElem?_eq_some_iff.1 found
    rw [List.drop_eq_getElem_cons inside, List.map_cons]
    exact .item (next_of_answers (.record found)) rfl (gives_source records (taken + 1))
termination_by records.length - taken

theorem Gives.foldl {origin : Source} {r : Records} {items : List Item}
    (h : r.Gives origin items) (adaptors : List Adaptor) :
    Gives origin (adaptors.foldl (fun records a => .adapted a records) r)
      (adaptors.foldl (fun items a => Items.upToPanic (a.onItems items)) items) := by
  induction adaptors generalizing r items with
  | nil => exact h
  | cons a later ih => exact ih (h.adapted a)

end Records

end RecordPipeline
