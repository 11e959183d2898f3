import Mathlib.Data.Fintype.Card
import RecordPipeline.Proofs.Value.Order
import RecordPipeline.Value.Insertion

/-!
What stable sorts give. A sort that is through has asked for nothing but pairs that compare, so its
result is that of every order in which they stand so. Two orders that differ in a pair without an
order show that there is no such pair.
-/

namespace RecordPipeline

namespace Sorting

open Value (NumbersChain then_ne_gt)

variable {n : Nat} {reverse : Bool} {key : Fin n → Value} {answer : Fin n → Fin n → Ordering}

def Extends (reverse : Bool) (key : Fin n → Value) (answer : Fin n → Fin n → Ordering) : Prop :=
  ∀ i j, i ≠ j → ∀ o, Value.order? reverse (key i) (key j) = some o → answer i j = o

theorem byKeys_of_failure (pair : Value.Unordered) (sorting : Sorting n) (order : List (Fin n)) :
    sorting.byKeys reverse key (some pair) ≠ .ok order := by
  induction sorting with
  | compare i j apart next ih =>
    rw [byKeys]
    split
    · exact ih _
    · rw [Option.some_or]
      exact ih _
  | done order =>
    intro sorted
    cases sorted
  | panic =>
    intro sorted
    cases sorted

theorem run_of_byKeys (extends' : Extends reverse key answer) {sorting : Sorting n}
    {order : List (Fin n)} (h : sorting.byKeys reverse key none = .ok order) :
    sorting.run answer = some order := by
  induction sorting with
  | compare i j apart next ih =>
    rw [byKeys] at h
    split at h
    · rename_i o compared
      rw [run, extends' i j apart o compared]
      exact ih _ h
    · rw [Option.none_or] at h
      exact absurd h (byKeys_of_failure _ _ _)
  | done order =>
    cases h
    rfl
  | panic => cases h

theorem byKeys_of_run (compares : ∀ i j, i ≠ j →
      Value.order? reverse (key i) (key j) = some (answer i j)) {sorting : Sorting n}
    {order : List (Fin n)} (h : sorting.run answer = some order) :
    sorting.byKeys reverse key none = .ok order := by
  induction sorting with
  | compare i j apart next ih =>
    rw [byKeys, compares i j apart]
    exact ih _ h
  | done order =>
    cases h
    rfl
  | panic => cases h

/-- The pairs a sort asks for, one after the other. -/
def asked (answer : Fin n → Fin n → Ordering) : Sorting n → List (Fin n × Fin n)
  | compare i j _ next => (i, j) :: (next (answer i j)).asked answer
  | done _ | panic => []

theorem byKeys_eq (equal : ∀ i j, answer i j = (Value.order? reverse (key i) (key j)).getD .eq)
    (failure : Option Value.Unordered) (sorting : Sorting n) :
    sorting.byKeys reverse key failure =
      (sorting.run answer).elim (.error .panic) fun order =>
        (failure.or (((sorting.asked answer).find? fun pair =>
            (Value.order? reverse (key pair.1) (key pair.2)).isNone).map fun pair =>
          Value.unordered reverse (key pair.1) (key pair.2))).elim (.ok order) fun pair =>
            .error (.unordered pair) := by
  induction sorting generalizing failure with
  | compare i j apart next ih =>
    rw [byKeys, run, asked, List.find?_cons, equal i j]
    cases compared : Value.order? reverse (key i) (key j) with
    | some o => exact ih o failure
    | none =>
      -- the first failure stays, whatever is asked for behind it
      refine (ih .eq _).trans ?_
      cases failure <;> rfl
  | done order => cases failure <;> rfl
  | panic => cases failure <;> rfl

def byRank (rank : Fin n → Nat) (i j : Fin n) : Ordering :=
  Ord.compare (rank i) (rank j)

theorem transCmp_byRank (rank : Fin n → Nat) : Std.TransCmp (byRank rank) :=
  inferInstanceAs (Std.TransCmp (compareOn rank))

theorem Sorts.apart {first second : Fin n → Nat} {order : List (Fin n)}
    (sorts : Sorts (byRank first) order) {i j : Fin n} (hi : i ∈ order) (hj : j ∈ order) (apart : i ≠ j)
    (sorts' : Sorts (byRank second) order) :
    (first i ≤ first j ∧ second i ≤ second j) ∨ (first j ≤ first i ∧ second j ≤ second i) := by
  have le {rank : Fin n → Nat} {i j : Fin n}
      (stands : byRank rank i j = .lt ∨ (byRank rank i j = .eq ∧ i < j)) : rank i ≤ rank j := by
    rcases stands with less | ⟨equal, -⟩
    · exact Nat.le_of_lt (Nat.compare_eq_lt.1 less)
    · exact Nat.le_of_eq (Nat.compare_eq_eq.1 equal)
  let R (i j : Fin n) : Prop :=
    (first i ≤ first j ∧ second i ≤ second j) ∨ (first j ≤ first i ∧ second j ≤ second i)
  have symmetric : Std.Symm R := ⟨fun _ _ => Or.symm⟩
  have stands : order.Pairwise R := (sorts.ordered.and sorts'.ordered).imp
    fun ⟨one, other⟩ => .inl ⟨le one, le other⟩
  exact stands.forall hi hj apart

theorem exists_rank (R : Fin n → Fin n → Prop) (refl : ∀ i, R i i)
    (trans : ∀ i j k, R i j → R j k → R i k) :
    ∃ rank : Fin n → Nat, ∀ i j, R i j →
      rank i ≤ rank j ∧ (¬R j i → rank i < rank j) := by
  classical
  refine ⟨fun i => (Finset.univ.filter fun k => R k i).card, fun i j below => ?_⟩
  have within : (Finset.univ.filter fun k => R k i) ⊆ Finset.univ.filter fun k => R k j := by
    intro k member
    rw [Finset.mem_filter] at member ⊢
    exact ⟨member.1, trans k i j member.2 below⟩
  refine ⟨Finset.card_le_card within, fun strict => Finset.card_lt_card ⟨within, fun back => ?_⟩⟩
  have member : j ∈ Finset.univ.filter fun k => R k j := by
    rw [Finset.mem_filter]
    exact ⟨Finset.mem_univ j, refl j⟩
  exact strict (Finset.mem_filter.1 (back member)).2

/-- An item is not larger than another, or it is the same. -/
def Below (reverse : Bool) (key : Fin n → Value) (i j : Fin n) : Prop :=
  i = j ∨ ∃ o, Value.order? reverse (key i) (key j) = some o ∧ o ≠ .gt

end Sorting

namespace Value

variable {reverse : Bool}

theorem order?_swap (a b : Value) :
    order? reverse b a = (order? reverse a b).map Ordering.swap := by
  cases reverse with
  | false => exact compare?_swap a b
  | true => exact compare?_swap b a

theorem order?_chains {P : Value → Prop} (h : NumbersChain P) {a b c : Value} (ha : P a) (hb : P b)
    (hc : P c) {o p : Ordering} (first : order? reverse a b = some o)
    (second : order? reverse b c = some p) (ho : o ≠ .gt) (hp : p ≠ .gt) :
    order? reverse a c = some (o.then p) := by
  cases reverse with
  | false => exact h.chains ha hb hc o p first second ho hp
  | true =>
    have turned : o.then p = p.then o := by
      cases o <;> cases p <;> first | rfl | exact absurd rfl ho | exact absurd rfl hp
    rw [turned]
    exact h.chains hc hb ha p o second first hp ho

theorem order?_isSome (a b : Value) : (order? reverse a b).isSome = (compare? a b).isSome := by
  cases reverse with
  | false => rfl
  | true => rw [order?, if_pos rfl, compare?_swap a b, Option.isSome_map]

end Value

namespace Sorting

open Value (NumbersChain then_ne_gt)

variable {n : Nat} {reverse : Bool} {key : Fin n → Value} {P : Value → Prop}

/-- A transitive relation that adds nothing to how keys compare is part of an order of theirs. -/
theorem exists_extends (R : Fin n → Fin n → Prop) (within : ∀ i j, Below reverse key i j → R i j)
    (trans : ∀ i j k, R i j → R j k → R i k)
    (strict : ∀ i j, Below reverse key i j → R j i → Below reverse key j i) :
    ∃ rank : Fin n → Nat, Extends reverse key (byRank rank) ∧
      ∀ i j, R i j → ¬R j i → rank i < rank j := by
  obtain ⟨rank, ranks⟩ := exists_rank R (fun i => within i i (.inl rfl)) trans
  have below {i j : Fin n} {o : Ordering} (compared : Value.order? reverse (key i) (key j) = some o)
      (notGreater : o ≠ .gt) : R i j := within i j (.inr ⟨o, compared, notGreater⟩)
  have less {i j : Fin n} (apart : i ≠ j)
      (compared : Value.order? reverse (key i) (key j) = some .lt) : rank i < rank j := by
    refine (ranks i j (below compared (by decide))).2 fun back => ?_
    obtain same | ⟨p, turned, notGreater⟩ := strict i j (.inr ⟨.lt, compared, by decide⟩) back
    · exact apart same.symm
    · rw [Value.order?_swap, compared] at turned
      cases turned
      exact notGreater rfl
  refine ⟨rank, fun i j apart o compared => ?_, fun i j first => (ranks i j first).2⟩
  have turned : Value.order? reverse (key j) (key i) = some o.swap := by
    rw [Value.order?_swap, compared, Option.map_some]
  cases o with
  | lt => exact Nat.compare_eq_lt.2 (less apart compared)
  | eq => exact Nat.compare_eq_eq.2 (Nat.le_antisymm (ranks i j (below compared (by decide))).1
      (ranks j i (below turned (by decide))).1)
  | gt => exact Nat.compare_eq_gt.2 (less apart.symm turned)

def Chains (reverse : Bool) (key : Fin n → Value) : Prop :=
  ∀ i j k, Below reverse key i j → Below reverse key j k → Below reverse key i k

instance (i j : Fin n) : Decidable (Below reverse key i j) :=
  decidable_of_iff (i = j ∨ (Value.order? reverse (key i) (key j)).any (· ≠ .gt) = true)
    (by simp [Below, Option.any_eq_true])

instance : Decidable (Chains reverse key) :=
  inferInstanceAs (Decidable (∀ i j k, Below reverse key i j → Below reverse key j k →
    Below reverse key i k))

theorem chains_of_numbers (chain : NumbersChain P) (allowed : ∀ i, P (key i)) :
    Chains reverse key := by
  intro i j k first second
  obtain rfl | ⟨o, comparesFirst, ho⟩ := first
  · exact second
  obtain rfl | ⟨p, comparesSecond, hp⟩ := second
  · exact .inr ⟨o, comparesFirst, ho⟩
  · exact .inr ⟨o.then p, Value.order?_chains chain (allowed i) (allowed j) (allowed k) comparesFirst
      comparesSecond ho hp, then_ne_gt ho hp⟩

/-- An order of the keys in which one of two items without an order comes first. -/
theorem exists_order_apart (chains : Chains reverse key) {a b : Fin n}
    (apart : ¬Below reverse key b a) :
    ∃ rank : Fin n → Nat, Extends reverse key (byRank rank) ∧ rank a < rank b := by
  let R (i j : Fin n) : Prop :=
    Below reverse key i j ∨ (Below reverse key i a ∧ Below reverse key b j)
  have trans : ∀ i j k, R i j → R j k → R i k := by
    rintro i j k (first | ⟨first, middle⟩) (second | ⟨middle', second⟩)
    · exact .inl (chains _ _ _ first second)
    · exact .inr ⟨chains _ _ _ first middle', second⟩
    · exact .inr ⟨first, chains _ _ _ middle second⟩
    · exact .inr ⟨first, second⟩
  have strict : ∀ i j, Below reverse key i j → R j i → Below reverse key j i := by
    rintro i j below (back | ⟨first, second⟩)
    · exact back
    · exact absurd (chains _ _ _ (chains _ _ _ second below) first) apart
  obtain ⟨rank, extends', ranks⟩ :=
    exists_extends R (fun _ _ => .inl) trans strict
  refine ⟨rank, extends', ranks a b (.inr ⟨.inl rfl, .inl rfl⟩) ?_⟩
  rintro (back | ⟨back, -⟩) <;> exact apart back

theorem exists_extends_of_chains (chains : Chains reverse key) :
    ∃ rank : Fin n → Nat, Extends reverse key (byRank rank) := by
  obtain ⟨rank, extends', -⟩ := exists_extends _ (fun _ _ => id) chains fun _ _ _ => id
  exact ⟨rank, extends'⟩

variable {i j : Fin n} {order : List (Fin n)}

section Merging

variable (compares : ∀ i j, i ≠ j → (Value.order? reverse (key i) (key j)).isSome)

include compares

theorem below_iff : Below reverse key i j ↔ Value.order? reverse (key i) (key j) ≠ some .gt := by
  constructor
  · rintro (rfl | ⟨o, compared, notGreater⟩) greater
    · have turned := @Value.order?_swap reverse (key i) (key i)
      rw [greater] at turned
      cases turned
    · exact notGreater (Option.some.inj (compared.symm.trans greater))
  · intro notGreater
    by_cases same : i = j
    · exact .inl same
    · obtain ⟨o, compared⟩ := Option.isSome_iff_exists.1 (compares i j same)
      exact .inr ⟨o, compared, fun greater => notGreater (greater ▸ compared)⟩

theorem below_or_below (i j : Fin n) : Below reverse key i j ∨ Below reverse key j i := by
  rw [below_iff compares, below_iff compares, Value.order?_swap (key i) (key j)]
  cases Value.order? reverse (key i) (key j) with
  | none => exact .inl nofun
  | some o => cases o <;> simp

theorem mergeSort_finRange (chains : Chains reverse key) (perm : order.Perm (List.finRange n))
    (ordered : order.Pairwise fun i j => Value.order? reverse (key i) (key j) = some .lt ∨
      (Value.order? reverse (key i) (key j) = some .eq ∧ i < j)) :
    (List.finRange n).mergeSort (fun i j => Below reverse key i j) = order := by
  let le (i j : Fin n) : Bool := Below reverse key i j
  let stable (i j : Fin n) : Bool := List.zipIdxLE le (i, i) (j, j)
  have trans (i j k : Fin n) (first : le i j = true) (second : le j k = true) : le i k = true :=
    decide_eq_true (chains i j k (of_decide_eq_true first) (of_decide_eq_true second))
  have total (i j : Fin n) : (le i j || le j i) = true := by
    rw [Bool.or_eq_true, decide_eq_true_iff, decide_eq_true_iff]
    exact below_or_below compares i j
  have stable_iff (i j : Fin n) : stable i j = true ↔
      Below reverse key i j ∧ (Below reverse key j i → i ≤ j) := by
    by_cases first : Below reverse key i j <;> by_cases second : Below reverse key j i <;>
      simp [stable, List.zipIdxLE, le, first, second]
  have same : (List.finRange n).mergeSort le = (List.finRange n).mergeSort stable := by
    have pairs : (List.finRange n).zipIdx = (List.finRange n).map fun i => (i, i.val) := by
      refine List.ext_getElem (by simp) fun place _ _ => by simp
    have sorted : ((List.finRange n).map fun i => (i, i.val)).mergeSort (List.zipIdxLE le) =
        ((List.finRange n).mergeSort stable).map fun i => (i, i.val) :=
      (List.map_mergeSort (f := fun i : Fin n => (i, i.val)) fun _ _ _ _ => rfl).symm
    rw [← List.mergeSort_zipIdx, pairs, sorted, List.map_map]
    exact List.map_id _
  have stableTrans (i j k : Fin n) : stable i j = true → stable j k = true → stable i k = true :=
    List.zipIdxLE_trans trans _ _ _
  have merged := List.pairwise_mergeSort stableTrans (fun i j => List.zipIdxLE_total total _ _)
    (List.finRange n)
  rw [same]
  refine List.Perm.eq_of_pairwise ?_ merged (ordered.imp fun {i j} stands => ?_)
    ((List.mergeSort_perm _ _).trans perm.symm)
  · intro i j _ _ first second
    obtain ⟨below, least⟩ := (stable_iff i j).1 first
    obtain ⟨below', least'⟩ := (stable_iff j i).1 second
    exact Fin.le_antisymm (least below') (least' below)
  · rw [stable_iff, below_iff compares, below_iff compares, Value.order?_swap (key i) (key j)]
    rcases stands with less | ⟨equal, earlier⟩
    · rw [less]
      exact ⟨nofun, fun back => absurd rfl back⟩
    · rw [equal]
      exact ⟨nofun, fun _ => Fin.le_of_lt earlier⟩

end Merging

end Sorting

namespace Value

variable {α : Type} {sort : StableSort} {reverse : Bool}
  {items sorted : List (Value × α)}

theorem sortKeyed_ok : sortKeyed sort reverse items = .ok sorted ↔
    ∃ order, (sort.sorting items.length).byKeys reverse (fun i => (items.get i).1) none = .ok order ∧
      order.map items.get = sorted := by
  rw [sortKeyed]
  cases (sort.sorting items.length).byKeys reverse (fun i => (items.get i).1) none <;>
    simp [Except.map]

theorem chains_of_keys (reverse : Bool) {P : Value → Prop} (chain : NumbersChain P)
    (allowed : ∀ item ∈ items, P item.1) :
    Sorting.Chains reverse fun i : Fin items.length => (items.get i).1 :=
  Sorting.chains_of_numbers chain fun i => allowed _ (items.get_mem i)

section Chains

variable (chains : Sorting.Chains reverse fun i : Fin items.length => (items.get i).1)

include chains

theorem order?_isSome_of_sortKeyed (h : sortKeyed sort reverse items = .ok sorted)
    {a b : Fin items.length} (apart : a ≠ b) :
    (order? reverse (items.get a).1 (items.get b).1).isSome := by
  obtain ⟨order, run, -⟩ := sortKeyed_ok.1 h
  rw [Option.isSome_iff_ne_none]
  intro missing
  have noOrder {i j : Fin items.length} (differ : i ≠ j)
      (missing : order? reverse (items.get i).1 (items.get j).1 = none) :
      ¬Sorting.Below reverse (fun i => (items.get i).1) i j := by
    rintro (same | ⟨o, compared, -⟩)
    · exact differ same
    · rw [missing] at compared
      cases compared
  have missing' : order? reverse (items.get b).1 (items.get a).1 = none := by
    rw [order?_swap, missing, Option.map_none]
  -- in one order `a` comes before `b` and in the other one behind it
  obtain ⟨first, extends', less⟩ := Sorting.exists_order_apart chains (noOrder apart.symm missing')
  obtain ⟨second, extends'', more⟩ := Sorting.exists_order_apart chains (noOrder apart missing)
  obtain ⟨order₁, run₁, sorts₁⟩ := sort.sorts _ _ (Sorting.transCmp_byRank first)
  obtain ⟨order₂, run₂, sorts₂⟩ := sort.sorts _ _ (Sorting.transCmp_byRank second)
  obtain rfl : order = order₁ := Option.some.inj ((Sorting.run_of_byKeys extends' run).symm.trans run₁)
  obtain rfl : order = order₂ := Option.some.inj ((Sorting.run_of_byKeys extends'' run).symm.trans run₂)
  have inside (i : Fin items.length) : i ∈ order := sorts₁.perm.mem_iff.2 (List.mem_finRange i)
  rcases sorts₁.apart (inside a) (inside b) apart sorts₂ with ⟨-, above⟩ | ⟨below, -⟩
  · exact Nat.not_le.2 more above
  · exact Nat.not_le.2 less below

theorem sortKeyed_succeeds (compares : ∀ i j : Fin items.length, i ≠ j →
      (order? reverse (items.get i).1 (items.get j).1).isSome) :
    ∃ sorted, sortKeyed sort reverse items = .ok sorted := by
  obtain ⟨rank, extends'⟩ := Sorting.exists_extends_of_chains chains
  obtain ⟨order, run, -⟩ := sort.sorts _ _ (Sorting.transCmp_byRank rank)
  refine ⟨_, sortKeyed_ok.2 ⟨order, Sorting.byKeys_of_run (fun i j apart => ?_) run, rfl⟩⟩
  obtain ⟨o, compared⟩ := Option.isSome_iff_exists.1 (compares i j apart)
  rw [compared, extends' i j apart o compared]

theorem sortKeyed_order (h : sortKeyed sort reverse items = .ok sorted) :
    ∃ order : List (Fin items.length), order.Perm (List.finRange items.length) ∧
      sorted = order.map items.get ∧
      order.Pairwise fun i j =>
        order? reverse (items.get i).1 (items.get j).1 = some .lt ∨
        (order? reverse (items.get i).1 (items.get j).1 = some .eq ∧ i < j) := by
  obtain ⟨order, run, rfl⟩ := sortKeyed_ok.1 h
  obtain ⟨rank, extends'⟩ := Sorting.exists_extends_of_chains chains
  obtain ⟨order', run', sorts⟩ := sort.sorts _ _ (Sorting.transCmp_byRank rank)
  obtain rfl : order = order' :=
    Option.some.inj ((Sorting.run_of_byKeys extends' run).symm.trans run')
  have apart : order.Pairwise (· ≠ ·) := sorts.perm.nodup_iff.2 (List.nodup_finRange _)
  refine ⟨order, sorts.perm, rfl, (apart.and sorts.ordered).imp fun {i j} ⟨differ, stands⟩ => ?_⟩
  obtain ⟨o, compared⟩ := Option.isSome_iff_exists.1 (order?_isSome_of_sortKeyed chains h differ)
  rw [extends' i j differ o compared] at stands
  rw [compared]
  exact stands.imp (congrArg some) (And.imp_left (congrArg some))

/-- Where every two keys have an order, all stable sorts give one list. -/
theorem sortKeyed_eq_mergeSort (compares : ∀ i j : Fin items.length, i ≠ j →
      (order? reverse (items.get i).1 (items.get j).1).isSome) :
    sortKeyed sort reverse items =
      .ok (items.mergeSort fun a b => order? reverse a.1 b.1 ≠ some .gt) := by
  obtain ⟨sorted, run⟩ : ∃ sorted, sortKeyed sort reverse items = .ok sorted :=
    sortKeyed_succeeds chains compares
  obtain ⟨order, perm, rfl, ordered⟩ := sortKeyed_order chains run
  have merged : (order.map items.get) = ((List.finRange items.length).map items.get).mergeSort
      fun a b => order? reverse a.1 b.1 ≠ some .gt := by
    rw [← Sorting.mergeSort_finRange compares chains perm ordered]
    refine List.map_mergeSort fun i _ j _ => ?_
    rw [decide_eq_decide]
    exact Sorting.below_iff compares
  rw [run, merged, List.map_get_finRange]

end Chains

theorem compare?_of_order? {a b : Value} {o : Ordering} (compared : order? reverse a b = some o) :
    compare? a b = some (if reverse then o.swap else o) := by
  cases reverse with
  | false => exact compared
  | true =>
    rw [order?, if_pos rfl] at compared
    rw [compare?_swap b a, compared]
    rfl

/-- Whatever stable sort it is, it is stable in both directions, and it fails only where two keys do not
compare. -/
theorem sortKeyed_stable (sort : StableSort) (reverse : Bool) (items : List (Value × α))
    (floatFree : ∀ item ∈ items, item.1.FloatFree) :
    ((∃ sorted, sortKeyed sort reverse items = .ok sorted) ↔
      ∀ i j : Fin items.length, i ≠ j →
        (compare? (items.get i).1 (items.get j).1).isSome) ∧
    ∀ sorted, sortKeyed sort reverse items = .ok sorted →
      ∃ order : List (Fin items.length), order.Perm (List.finRange items.length) ∧
        sorted = order.map items.get ∧
        order.Pairwise fun i j =>
          compare? (items.get i).1 (items.get j).1 ≠ some (if reverse then .lt else .gt) ∧
          (compare? (items.get i).1 (items.get j).1 = some .eq → i < j) := by
  have chains := chains_of_keys reverse numbersChain_floatFree floatFree
  refine ⟨⟨?_, fun compares => ?_⟩, fun sorted run => ?_⟩
  · rintro ⟨sorted, run⟩ i j apart
    rw [← @order?_isSome reverse]
    exact order?_isSome_of_sortKeyed chains run apart
  · simp only [← @order?_isSome reverse] at compares
    exact sortKeyed_succeeds chains compares
  · obtain ⟨order, perm, same, ordered⟩ := sortKeyed_order chains run
    refine ⟨order, perm, same, ordered.imp fun {i j} stands => ?_⟩
    rcases stands with less | ⟨equal, earlier⟩
    · rw [compare?_of_order? less]
      cases reverse <;> exact ⟨by decide, fun same => by cases same⟩
    · rw [compare?_of_order? equal]
      cases reverse <;> exact ⟨by decide, fun _ => earlier⟩

theorem sortKeyed_stable_reverse :
    let items := [(integer 1, 'a'), (integer 2, 'b'), (integer 1, 'c')]
    sortKeyed .insertion true items = .ok [(integer 2, 'b'), (integer 1, 'a'), (integer 1, 'c')] ∧
      ∃ order : List (Fin items.length), order.Perm (List.finRange items.length) ∧
        [(integer 2, 'b'), (integer 1, 'a'), (integer 1, 'c')] = order.map items.get ∧
        order.Pairwise fun i j =>
          compare? (items.get i).1 (items.get j).1 ≠ some .lt ∧
          (compare? (items.get i).1 (items.get j).1 = some .eq → i < j) := by
  intro items
  have floatFree : ∀ item ∈ items, item.1.FloatFree := by
    simp [items, FloatFree]
  have run : sortKeyed .insertion true items =
      .ok [(integer 2, 'b'), (integer 1, 'a'), (integer 1, 'c')] := rfl
  exact ⟨run, (sortKeyed_stable .insertion true items floatFree).2 _ run⟩

end Value

end RecordPipeline
