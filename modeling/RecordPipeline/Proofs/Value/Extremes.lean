import RecordPipeline.Eval
import RecordPipeline.Platform.Reference
import RecordPipeline.Proofs.Grammar.Steps
import RecordPipeline.Proofs.Value.Sorting

/-!
The extremes of an array beside its sorted forms. The first item of a sorted array is less than all
that stood before it in the array, and no larger than those behind it; a scan for the extreme item
keeps just such an item as the best one so far.
-/

namespace RecordPipeline

namespace Value

variable {reverse : Bool} {P : Value → Prop}

/-- How an item compares with what it takes the place of: the smallest item stands first in a sorted
list, and the greatest one in reverse. -/
def better (reverse : Bool) : Ordering :=
  if reverse then .gt else .lt

theorem extremeFrom_cons {name : String} {item best : Value} {later : List Value} {o : Ordering}
    (compared : order? reverse item best = some o) :
    extremeFrom name (better reverse) best (item :: later) =
      extremeFrom name (better reverse) (if o = .lt then item else best) later := by
  cases reverse with
  | false =>
    rw [order?, if_neg Bool.false_ne_true] at compared
    rw [extremeFrom, compared]
    rfl
  | true =>
    rw [order?, if_pos rfl] at compared
    rw [extremeFrom, compare?_swap best item, compared]
    cases o <;> rfl

/-- An item among others that comes first when they are sorted. -/
structure Leads (reverse : Bool) (before : List Value) (item : Value) (behind : List Value) : Prop where
  less : ∀ v ∈ before, order? reverse item v = some .lt
  notGreater : ∀ v ∈ behind, order? reverse item v = some .lt ∨ order? reverse item v = some .eq

theorem Leads.unique {before behind before' behind' : List Value} {v w : Value}
    (leads : Leads reverse before v behind) (leads' : Leads reverse before' w behind')
    (same : before ++ v :: behind = before' ++ w :: behind') : v = w := by
  have clash {v w : Value} {before behind before' behind' between : List Value}
      (leads : Leads reverse before v behind) (leads' : Leads reverse before' w behind')
      (first : before' = before ++ v :: between) (second : behind = between ++ w :: behind') :
      v = w := by
    have less := leads'.less v (by simp [first])
    have turned : order? reverse v w = some .gt := by
      rw [order?_swap, less]
      rfl
    rcases leads.notGreater w (by simp [second]) with other | other <;>
      rw [turned] at other <;> cases other
  rcases List.append_eq_append_iff.1 same with ⟨between, first, second⟩ | ⟨between, first, second⟩
  · cases between with
    | nil => exact List.head_eq_of_cons_eq second
    | cons u between =>
      obtain ⟨rfl, rest⟩ := List.cons_eq_cons.1 second
      exact clash leads leads' first rest
  · cases between with
    | nil => exact (List.head_eq_of_cons_eq second).symm
    | cons u between =>
      obtain ⟨rfl, rest⟩ := List.cons_eq_cons.1 second
      exact (clash leads' leads first rest).symm

theorem Leads.replace (chain : NumbersChain P) {before behind : List Value} {best item : Value}
    (leads : Leads reverse before best behind) (allowed : ∀ v ∈ before ++ best :: behind, P v)
    (allowed' : P item) (better : order? reverse item best = some .lt) :
    Leads reverse (before ++ best :: behind) item [] where
  less v member := by
    have further {o : Ordering} (stands : order? reverse best v = some o) (ho : o ≠ .gt) :
        order? reverse item v = some .lt :=
      order?_chains chain allowed' (allowed best (by simp)) (allowed v member) better stands
        (by decide) ho
    rcases List.mem_append.1 member with before | among
    · exact further (leads.less v before) (by decide)
    rcases List.mem_cons.1 among with rfl | behind
    · exact better
    · rcases leads.notGreater v behind with less | equal
      · exact further less (by decide)
      · exact further equal (by decide)
  notGreater := nofun

theorem Leads.keep {before behind : List Value} {best item : Value} {o : Ordering}
    (leads : Leads reverse before best behind) (compared : order? reverse item best = some o)
    (notLess : o ≠ .lt) : Leads reverse before best (behind ++ [item]) where
  less := leads.less
  notGreater v member := by
    rcases List.mem_append.1 member with behind | last
    · exact leads.notGreater v behind
    · obtain rfl := List.mem_singleton.1 last
      rw [order?_swap, compared]
      cases o with
      | lt => exact absurd rfl notLess
      | eq => exact .inr rfl
      | gt => exact .inl rfl

theorem extremeFrom_leads (chain : NumbersChain P) (name : String) {before behind later : List Value}
    {best : Value} (leads : Leads reverse before best behind)
    (allowed : ∀ v ∈ before ++ best :: behind ++ later, P v)
    (compares : (before ++ best :: behind ++ later).Pairwise fun a b => (order? reverse a b).isSome) :
    ∃ before' item behind', before ++ best :: behind ++ later = before' ++ item :: behind' ∧
      Leads reverse before' item behind' ∧
      extremeFrom name (better reverse) best later = .ok item := by
  induction later generalizing before best behind with
  | nil => exact ⟨before, best, behind, List.append_nil _, leads, rfl⟩
  | cons item later ih =>
    have known := (List.pairwise_append.1 compares).2.2 best (by simp) item (by simp)
    obtain ⟨o, compared⟩ := Option.isSome_iff_exists.1 known
    have turned : order? reverse item best = some o.swap := by
      rw [order?_swap, compared]
      rfl
    rw [extremeFrom_cons turned]
    split
    · rename_i less
      rw [less] at turned
      have all : before ++ best :: behind ++ [] ++ item :: later =
          before ++ best :: behind ++ item :: later := by simp
      have leads' := leads.replace chain (fun v member => allowed v (List.mem_append_left _ member))
        (allowed item (by simp)) turned
      exact ih leads' (by simpa using allowed) (by simpa using compares)
        |>.imp fun _ ⟨_, _, same, rest⟩ => ⟨_, _, by simpa using same, rest⟩
    · rename_i stays
      exact ih (leads.keep turned stays) (by simpa using allowed) (by simpa using compares)
        |>.imp fun _ ⟨_, _, same, rest⟩ => ⟨_, _, by simpa using same, rest⟩

section Sorted

variable {α : Type} {sort : StableSort} {items sorted : List (Value × α)}

theorem sortKeyed_perm (h : sortKeyed sort reverse items = .ok sorted) (chain : NumbersChain P)
    (allowed : ∀ x ∈ items, P x.1) : sorted.Perm items := by
  obtain ⟨order, perm, rfl, -⟩ := sortKeyed_order (chains_of_keys _ chain allowed) h
  have perm := perm.map items.get
  rwa [List.map_get_finRange] at perm

theorem pairwise_of_sortKeyed (chain : NumbersChain P) (allowed : ∀ x ∈ items, P x.1)
    (h : sortKeyed sort reverse items = .ok sorted) :
    (items.map Prod.fst).Pairwise fun a b => (order? reverse a b).isSome := by
  rw [List.pairwise_map, List.pairwise_iff_get]
  exact fun i j less => order?_isSome_of_sortKeyed (chains_of_keys _ chain allowed) h (Fin.ne_of_lt less)

theorem leads_of_sortKeyed (chain : NumbersChain P) (allowed : ∀ x ∈ items, P x.1)
    {first : Value × α} {rest : List (Value × α)}
    (h : sortKeyed sort reverse items = .ok (first :: rest)) :
    ∃ before behind, items.map Prod.fst = before ++ first.1 :: behind ∧
      Leads reverse before first.1 behind := by
  obtain ⟨order, perm, same, ordered⟩ := sortKeyed_order (chains_of_keys _ chain allowed) h
  cases order with
  | nil => cases same
  | cons i order =>
    obtain ⟨rfl, -⟩ := List.cons_eq_cons.1 same
    have stands (j : Fin items.length) (apart : j ≠ i) :
        order? reverse (items.get i).1 (items.get j).1 = some .lt ∨
          (order? reverse (items.get i).1 (items.get j).1 = some .eq ∧ i < j) :=
      (List.pairwise_cons.1 ordered).1 j
        ((List.mem_cons.1 (perm.mem_iff.2 (List.mem_finRange j))).resolve_left apart)
    refine ⟨(items.take i).map Prod.fst, (items.drop (i + 1)).map Prod.fst, ?_, fun v member => ?_,
      fun v member => ?_⟩
    · rw [← List.map_cons, ← List.map_append, List.get_eq_getElem, List.cons_getElem_drop_succ,
        List.take_append_drop]
    · obtain ⟨item, among, rfl⟩ := List.mem_map.1 member
      obtain ⟨j, less, rfl⟩ := List.mem_take_iff_getElem.1 among
      have earlier : j < i := by omega
      refine (stands ⟨j, by omega⟩ fun same => ?_).resolve_right fun ⟨_, later⟩ => ?_
      · rw [← same] at earlier
        exact Nat.lt_irrefl _ earlier
      · exact Nat.lt_asymm earlier later
    · obtain ⟨item, among, rfl⟩ := List.mem_map.1 member
      obtain ⟨j, less, rfl⟩ := List.mem_drop_iff_getElem.1 among
      refine (stands ⟨i + 1 + j, by omega⟩ fun same => ?_).imp_right And.left
      have positions := congrArg Fin.val same
      dsimp only at positions
      omega

theorem extremeOf_eq_head (name : String) (chain : NumbersChain P) (allowed : ∀ x ∈ items, P x.1)
    (h : sortKeyed sort reverse items = .ok sorted) :
    extremeOf name (better reverse) (items.map Prod.fst) =
      .ok ((sorted.map Prod.fst).head?.getD null) := by
  have perm := sortKeyed_perm h chain allowed
  cases sorted with
  | nil =>
    rw [List.Perm.eq_nil perm.symm]
    rfl
  | cons first rest =>
    obtain ⟨before, behind, split, leads⟩ := leads_of_sortKeyed chain allowed h
    have compares := pairwise_of_sortKeyed chain allowed h
    have allowed' : ∀ v ∈ items.map Prod.fst, P v := by simpa using allowed
    cases keys : items.map Prod.fst with
    | nil => simp [keys] at split
    | cons key later =>
      rw [keys] at split compares allowed'
      obtain ⟨before', item, behind', split', leads', found⟩ :=
        extremeFrom_leads chain name (show Leads reverse [] key [] from ⟨nofun, nofun⟩) allowed' compares
      rw [extremeOf, found, leads'.unique leads (split'.symm.trans split)]
      rfl

end Sorted

def ownKeys (items : List Value) : List (Value × Value) :=
  items.map fun item => (item, item)

theorem map_fst_ownKeys (items : List Value) : (ownKeys items).map Prod.fst = items := by
  rw [ownKeys, List.map_map]
  exact List.map_id items

theorem map_snd_of_perm_ownKeys {items : List Value} {keyed : List (Value × Value)}
    (perm : keyed.Perm (ownKeys items)) : keyed.map Prod.snd = keyed.map Prod.fst := by
  refine List.map_congr_left fun pair member => ?_
  obtain ⟨item, -, rfl⟩ := List.mem_map.1 (perm.mem_iff.1 member)
  rfl

theorem ownKeys_floatFree {items : List Value} (floatFree : (array items).FloatFree) :
    ∀ x ∈ ownKeys items, x.1.FloatFree := by
  intro x member
  obtain ⟨item, inside, rfl⟩ := List.mem_map.1 member
  exact numbersChain_floatFree.items floatFree item inside

theorem access_zero (items : List Value) :
    (array items).access (integer 0) = .ok (items.head?.getD null) := by
  rw [access, itemAt?, List.head?_eq_getElem?]
  rfl

section Arrays

variable {sort : StableSort}

theorem sorted_array_ok {items : List Value} {v : Value} :
    sorted sort reverse (array items) = .ok v ↔
      ∃ keyed, sortKeyed sort reverse (ownKeys items) = .ok keyed ∧ array (keyed.map Prod.snd) = v := by
  change (sortByKey sort reverse (ownKeys items) >>= _) = .ok v ↔ _
  rw [sortByKey]
  cases sortKeyed sort reverse (ownKeys items) with
  | error failure => cases failure <;> simp [refuse, bind, Except.bind]
  | ok keyed => simp [bind, Except.bind, pure, Except.pure]

theorem exists_sorted {items : List Value} (floatFree : (array items).FloatFree) {v : Value}
    (h : sorted sort false (array items) = .ok v) (reverse : Bool) :
    ∃ keyed, sortKeyed sort reverse (ownKeys items) = .ok keyed := by
  obtain ⟨keyed, run, -⟩ := sorted_array_ok.1 h
  have chains (reverse : Bool) := chains_of_keys reverse numbersChain_floatFree
    (ownKeys_floatFree floatFree)
  refine sortKeyed_succeeds (chains reverse) fun i j apart => ?_
  have compares := order?_isSome_of_sortKeyed (chains false) run apart
  rwa [order?_isSome] at compares ⊢

/-- One value is the extreme of the array, the first item of the sorted array, and one of the items
if there are any. -/
theorem exists_extreme {items : List Value} (floatFree : (array items).FloatFree) {v : Value}
    (sorts : sorted sort false (array items) = .ok v) (name : String) (reverse : Bool) :
    ∃ first, extreme name (better reverse) [array items] = .ok first ∧
      (sorted sort reverse (array items) >>= fun l => l.access (integer 0)) = .ok first ∧
      (items = [] → first = null) ∧ (items ≠ [] → first ∈ items) := by
  obtain ⟨keyed, run⟩ := exists_sorted floatFree sorts reverse
  have allowed := ownKeys_floatFree floatFree
  have perm := sortKeyed_perm run numbersChain_floatFree allowed
  have head := extremeOf_eq_head name numbersChain_floatFree allowed run
  rw [map_fst_ownKeys] at head
  refine ⟨(keyed.map Prod.fst).head?.getD null, head, ?_, ?_, ?_⟩
  · refine except_bind_ok.2 ⟨_, sorted_array_ok.2 ⟨keyed, run, rfl⟩, ?_⟩
    rw [access_zero, map_snd_of_perm_ownKeys perm]
  · rintro rfl
    rw [List.Perm.eq_nil perm]
    rfl
  · intro some
    have members : ∀ item ∈ keyed.map Prod.fst, item ∈ items := fun item member => by
      have same := (perm.map Prod.fst).mem_iff.1 member
      rwa [map_fst_ownKeys] at same
    cases found : keyed.map Prod.fst with
    | nil =>
      have lengths := (perm.map Prod.fst).length_eq
      rw [found, map_fst_ownKeys] at lengths
      exact absurd (List.length_eq_zero_iff.1 lengths.symm) some
    | cons first later => exact members first (by simp [found])

end Arrays

end Value

namespace Expr

section Calls

variable {platform : Platform} {input : Value} {l : Expr} {items : List Value}

theorem eval_call_array (read : l.eval platform input = .ok (.array items)) (name : String) :
    (call (bare name) [l] []).eval platform input = callFunction platform name [.array items] [] := by
  rw [eval, evalAll, evalAll, read, evalNamed]
  rfl

theorem eval_sorted (read : l.eval platform input = .ok (.array items)) :
    (call (bare "sorted") [l] []).eval platform input = Value.sorted platform.sort false (.array items) := by
  rw [eval_call_array read]
  rfl

theorem eval_sorted_reverse (read : l.eval platform input = .ok (.array items)) :
    (call (bare "sorted") [l] [("reverse", boolean true)]).eval platform input =
      Value.sorted platform.sort true (.array items) := by
  rw [eval, evalAll, evalAll, read, evalNamed, evalNamed, eval]
  rfl

theorem eval_index_zero (e : Expr) :
    (index e (integer 0)).eval platform input =
      (e.eval platform input >>= fun v => v.access (.integer 0)) := by
  rw [eval, eval]
  rfl

end Calls

/-- Where an array without doubles can be sorted, its least item is the first one of the sorted array
and its greatest item the first one of the array sorted in reverse; only of an empty array are these
no items of it, but null. -/
theorem eval_extremes (platform : Platform) (input : Value) (l : Expr) {items : List Value}
    {v : Value} (read : l.eval platform input = .ok (.array items))
    (floatFree : (Value.array items).FloatFree)
    (sorts : (call (bare "sorted") [l] []).eval platform input = .ok v) :
    ∃ least greatest,
      (call (bare "min") [l] []).eval platform input = .ok least ∧
      (index (call (bare "sorted") [l] []) (integer 0)).eval platform input = .ok least ∧
      (call (bare "max") [l] []).eval platform input = .ok greatest ∧
      (index (call (bare "sorted") [l] [("reverse", boolean true)]) (integer 0)).eval platform input =
        .ok greatest ∧
      (items = [] → least = .null ∧ greatest = .null) ∧
      (items ≠ [] → least ∈ items ∧ greatest ∈ items) := by
  rw [eval_sorted read] at sorts
  obtain ⟨least, isLeast, leastFirst, noLeast, leastInside⟩ :=
    Value.exists_extreme floatFree sorts "min" false
  obtain ⟨greatest, isGreatest, greatestFirst, noGreatest, greatestInside⟩ :=
    Value.exists_extreme floatFree sorts "max" true
  refine ⟨least, greatest, ?_, ?_, ?_, ?_, fun none => ⟨noLeast none, noGreatest none⟩,
    fun some => ⟨leastInside some, greatestInside some⟩⟩
  · rw [eval_call_array read]
    exact isLeast
  · rw [eval_index_zero, eval_sorted read]
    exact leastFirst
  · rw [eval_call_array read]
    exact isGreatest
  · rw [eval_index_zero, eval_sorted_reverse read]
    exact greatestFirst

/-- Arrays as items, two of them equal and one a beginning of these. -/
theorem eval_extremes_arrays :
    let l := array [array [integer 2], array [integer 1, string "a"], array [integer 1],
      array [integer 1, string "a"]]
    let items : List Value := [.array [.integer 2], .array [.integer 1, .string "a"],
      .array [.integer 1], .array [.integer 1, .string "a"]]
    let inOrder : List Value := [.array [.integer 1], .array [.integer 1, .string "a"],
      .array [.integer 1, .string "a"], .array [.integer 2]]
    l.eval (.reference ⟨0, 0, 0⟩) .null = .ok (.array items) ∧ (Value.array items).FloatFree ∧
      (call (bare "sorted") [l] []).eval (.reference ⟨0, 0, 0⟩) .null = .ok (.array inOrder) ∧
      ∃ least greatest,
        (call (bare "min") [l] []).eval (.reference ⟨0, 0, 0⟩) .null = .ok least ∧
        (index (call (bare "sorted") [l] []) (integer 0)).eval (.reference ⟨0, 0, 0⟩) .null = .ok least ∧
        (call (bare "max") [l] []).eval (.reference ⟨0, 0, 0⟩) .null = .ok greatest ∧
        (index (call (bare "sorted") [l] [("reverse", boolean true)]) (integer 0)).eval (.reference ⟨0, 0, 0⟩)
            .null = .ok greatest ∧
        (items = [] → least = .null ∧ greatest = .null) ∧
        (items ≠ [] → least ∈ items ∧ greatest ∈ items) := by
  intro l items inOrder
  have read : l.eval (.reference ⟨0, 0, 0⟩) .null = .ok (.array items) := rfl
  have floatFree : (Value.array items).FloatFree := by
    simp [items, Value.FloatFree, Value.FloatFreeItems]
  have sorts : (call (bare "sorted") [l] []).eval (.reference ⟨0, 0, 0⟩) .null = .ok (.array inOrder) := by
    rw [eval_sorted read]
    cbv
  exact ⟨read, floatFree, sorts, eval_extremes (.reference ⟨0, 0, 0⟩) .null l read floatFree sorts⟩

end Expr

end RecordPipeline
