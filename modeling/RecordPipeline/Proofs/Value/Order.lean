import RecordPipeline.Proofs.Number.Rounding
import RecordPipeline.Proofs.Value.Shape
import RecordPipeline.Value.Order

/-!
The laws of the partial order of values. Exchanging two values turns their order around, and orders
of neighbours can be put together wherever the numbers in the values allow it: if no doubles take
part, or if different integers have different doubles. Two integers of one double are where it ends,
for both are equal to the double and not to each other.
-/

namespace RecordPipeline

namespace Value

@[elab_as_elim]
theorem induction_on_items {motive : Value → Prop} (v : Value)
    (array : ∀ items, (∀ item ∈ items, motive item) → motive (array items))
    (other : ∀ v, (∀ items, v ≠ .array items) → motive v) : motive v := by
  match v with
  | .array items => exact array items fun item _ => induction_on_items item array other
  | .null | .boolean _ | .integer _ | .float _ | .string _ | .object _ => exact other _ (by simp)

def IsNumber : Value → Prop
  | integer _ | float _ => True
  | _ => False

inductive Alike : Value → Value → Prop where
  | numbers {a b : Value} (first : a.IsNumber) (second : b.IsNumber) : Alike a b
  | strings {s t : String} : Alike (string s) (string t)
  | booleans {b c : Bool} : Alike (boolean b) (boolean c)
  | arrays {as bs : List Value} : Alike (array as) (array bs)

theorem alike_of_compare? {a b : Value} {o : Ordering} (h : compare? a b = some o) : Alike a b := by
  rw [compare?.eq_def] at h
  split at h
  · exact .numbers trivial trivial
  · exact .numbers trivial trivial
  · exact .numbers trivial trivial
  · exact .numbers trivial trivial
  · exact .strings
  · exact .booleans
  · exact .arrays
  · cases h

theorem compareItems?_cons (a b : Value) (as bs : List Value) :
    compareItems? (a :: as) (b :: bs) =
      (compare? a b).bind fun o => if o = .eq then compareItems? as bs else some o := by
  rw [compareItems?]
  match compare? a b with
  | none => rfl
  | some .lt => rfl
  | some .eq => rfl
  | some .gt => rfl

theorem compareItems?_swap {as bs : List Value}
    (each : ∀ a ∈ as, ∀ b, compare? b a = (compare? a b).map Ordering.swap) :
    compareItems? bs as = (compareItems? as bs).map Ordering.swap := by
  induction as generalizing bs with
  | nil => cases bs <;> simp [compareItems?]
  | cons a as ih =>
    cases bs with
    | nil => simp [compareItems?]
    | cons b bs =>
      have rest : compareItems? bs as = (compareItems? as bs).map Ordering.swap :=
        ih fun other member => each other (List.mem_cons_of_mem a member)
      rw [compareItems?_cons, compareItems?_cons, each a (by simp)]
      match compare? a b with
      | none => rfl
      | some .eq => exact rest
      | some .lt => rfl
      | some .gt => rfl

theorem compare?_swap (a b : Value) : compare? b a = (compare? a b).map Ordering.swap := by
  induction a using induction_on_items generalizing b with
  | array as ih =>
    cases b with
    | array bs =>
      rw [compare?, compare?]
      exact compareItems?_swap ih
    | _ => simp [compare?]
  | other a noArray =>
    cases a with
    | array as => exact absurd rfl (noArray as)
    | null | object _ => cases b <;> simp [compare?]
    | integer m =>
      cases b with
      | integer n => simp [compare?, Int.compare_swap]
      | float y => simpa only [compare?] using Binary64.compare?_swap (Binary64.ofInt m.toInt) y
      | _ => simp [compare?]
    | float x =>
      cases b with
      | integer n => simpa only [compare?] using Binary64.compare?_swap x (Binary64.ofInt n.toInt)
      | float y => simpa only [compare?] using Binary64.compare?_swap x y
      | _ => simp [compare?]
    | string s =>
      cases b with
      | string t =>
        simpa only [compare?, Option.map_some] using congrArg some Std.OrientedCmp.eq_swap
      | _ => simp [compare?]
    | boolean p =>
      cases b with
      | boolean q =>
        simpa only [compare?, Option.map_some] using congrArg some Std.OrientedCmp.eq_swap
      | _ => simp [compare?]
def Chains (a b c : Value) : Prop :=
  ∀ o p, compare? a b = some o → compare? b c = some p → o ≠ .gt → p ≠ .gt →
    compare? a c = some (o.then p)

theorem then_of_ne_gt {α : Type} {cmp : α → α → Ordering} [Std.TransCmp cmp] {a b c : α}
    (first : cmp a b ≠ .gt) (second : cmp b c ≠ .gt) : cmp a c = (cmp a b).then (cmp b c) := by
  cases hab : cmp a b with
  | gt => exact absurd hab first
  | eq =>
    cases hbc : cmp b c with
    | gt => exact absurd hbc second
    | eq => exact Std.TransCmp.eq_trans hab hbc
    | lt => exact Std.TransCmp.lt_of_eq_of_lt hab hbc
  | lt =>
    cases hbc : cmp b c with
    | gt => exact absurd hbc second
    | eq => exact Std.TransCmp.lt_of_lt_of_eq hab hbc
    | lt => exact Std.TransCmp.lt_trans hab hbc

theorem then_ne_gt {o p : Ordering} (ho : o ≠ .gt) (hp : p ≠ .gt) : o.then p ≠ .gt := by
  cases o with
  | gt => exact absurd rfl ho
  | lt => simp [Ordering.then]
  | eq => exact hp

theorem chains_items {as bs cs : List Value} {o p : Ordering}
    (each : ∀ a ∈ as, ∀ b ∈ bs, ∀ c ∈ cs, Chains a b c) (first : compareItems? as bs = some o)
    (second : compareItems? bs cs = some p) (ho : o ≠ .gt) (hp : p ≠ .gt) :
    compareItems? as cs = some (o.then p) := by
  induction as generalizing bs cs o p with
  | nil =>
    match bs, cs, first, second with
    | [], _, first, second =>
      cases first
      exact second
    | _ :: _, [], _, second =>
      cases second
      exact absurd rfl hp
    | _ :: _, _ :: _, first, _ =>
      cases first
      rfl
  | cons a as ih =>
    match bs, cs, first, second with
    | [], _, first, _ =>
      cases first
      exact absurd rfl ho
    | _ :: _, [], _, second =>
      cases second
      exact absurd rfl hp
    | b :: bs, c :: cs, first, second =>
      rw [compareItems?_cons] at first second
      obtain ⟨o', headFirst, first⟩ := Option.bind_eq_some_iff.1 first
      obtain ⟨p', headSecond, second⟩ := Option.bind_eq_some_iff.1 second
      have notGreater {x r : Ordering} {rest : Option Ordering}
          (h : (if x = .eq then rest else some x) = some r) (hr : r ≠ .gt) : x ≠ .gt := by
        rintro rfl
        cases h
        exact hr rfl
      have head := each a (by simp) b (by simp) c (by simp) o' p' headFirst headSecond
        (notGreater first ho) (notGreater second hp)
      rw [compareItems?_cons, head]
      cases o' with
      | gt => exact absurd rfl (notGreater first ho)
      | lt =>
        cases first
        rfl
      | eq =>
        cases p' with
        | gt => exact absurd rfl (notGreater second hp)
        | lt =>
          cases second
          cases o with
          | gt => exact absurd rfl ho
          | _ => rfl
        | eq =>
          exact ih (fun x hx y hy z hz => each x (by simp [hx]) y (by simp [hy]) z (by simp [hz]))
            first second ho hp

/-- Values whose numbers chain, as do the items of arrays among them. -/
structure NumbersChain (P : Value → Prop) : Prop where
  items : ∀ {xs : List Value}, P (array xs) → ∀ x ∈ xs, P x
  numbers : ∀ {a b c : Value}, a.IsNumber → b.IsNumber → c.IsNumber → P a → P b → P c → Chains a b c

theorem NumbersChain.chains {P : Value → Prop} (h : NumbersChain P) {a b c : Value} (ha : P a)
    (hb : P b) (hc : P c) : Chains a b c := by
  induction a using induction_on_items generalizing b c with
  | array as ih =>
    intro o p first second ho hp
    cases alike_of_compare? first with
    | numbers hNum => exact hNum.elim
    | @arrays _ bs =>
      cases alike_of_compare? second with
      | numbers hNum => exact hNum.elim
      | @arrays _ cs =>
        rw [compare?] at first second ⊢
        exact chains_items (fun x hx y hy z hz =>
          ih x hx (h.items ha x hx) (h.items hb y hy) (h.items hc z hz)) first second ho hp
  | other a noArray =>
    intro o p first second ho hp
    cases alike_of_compare? first with
    | arrays => exact absurd rfl (noArray _)
    | numbers hNumA hNumB =>
      cases alike_of_compare? second with
      | numbers _ hNumC => exact h.numbers hNumA hNumB hNumC ha hb hc o p first second ho hp
      | strings | booleans | arrays => exact hNumB.elim
    | strings | booleans =>
      cases alike_of_compare? second with
      | numbers hNumB => exact hNumB.elim
      | _ =>
        simp only [compare?, Option.some.injEq] at first second ⊢
        subst first second
        exact then_of_ne_gt ho hp

theorem integer_of_floatFree {v : Value} (number : v.IsNumber) (floatFree : v.FloatFree) :
    ∃ n, v = integer n := by
  cases v with
  | integer n => exact ⟨n, rfl⟩
  | float x => exact floatFree.elim
  | _ => exact number.elim

theorem numbersChain_floatFree : NumbersChain FloatFree where
  items h x member := floatFreeItems_iff.1 (by simpa only [FloatFree] using h) x member
  numbers hNumA hNumB hNumC ha hb hc o p first second ho hp := by
    obtain ⟨l, rfl⟩ := integer_of_floatFree hNumA ha
    obtain ⟨m, rfl⟩ := integer_of_floatFree hNumB hb
    obtain ⟨n, rfl⟩ := integer_of_floatFree hNumC hc
    simp only [compare?, Option.some.injEq] at first second ⊢
    subst first second
    exact then_of_ne_gt ho hp

mutual

def integers : Value → List Int64
  | integer n => [n]
  | array items => integersOf items
  | _ => []

def integersOf : List Value → List Int64
  | [] => []
  | item :: later => item.integers ++ integersOf later

end

/-- Different integers have different doubles. -/
def Apart (numbers : List Int64) : Prop :=
  ∀ m ∈ numbers, ∀ n ∈ numbers,
    Binary64.same (Binary64.ofInt m.toInt) (Binary64.ofInt n.toInt) = true → m = n

theorem integers_subset_of_mem {items : List Value} {item : Value} (member : item ∈ items) :
    item.integers ⊆ (array items).integers := by
  rw [integers]
  induction items with
  | nil => cases member
  | cons first later ih =>
    rw [integersOf]
    rcases List.mem_cons.1 member with rfl | member
    · exact List.subset_append_left ..
    · exact List.subset_append_of_subset_right _ (ih member)

def steps? : Value → Option Int
  | integer n => some (Binary64.steps (Binary64.ofInt n.toInt))
  | float x => if Binary64.isNaN x then none else some (Binary64.steps x)
  | _ => none

theorem compare?_numbers {numbers : List Int64} (apart : Apart numbers) {a b : Value}
    (hNumA : a.IsNumber) (hNumB : b.IsNumber) (ha : a.integers ⊆ numbers)
    (hb : b.integers ⊆ numbers) :
    compare? a b = a.steps?.bind fun s => b.steps?.map fun t => compare s t := by
  match a, b with
  | integer m, integer n =>
    have distinct := apart m (ha (by simp [integers])) n (hb (by simp [integers]))
    have ordered := Binary64.compare_steps_ofInt fun same => congrArg Int64.toInt (distinct same)
    simp [compare?, steps?, ordered]
  | integer m, float y =>
    simp only [compare?, steps?, Binary64.compare?, Binary64.isNaN_ofInt, Bool.false_or]
    split <;> rfl
  | float x, integer n =>
    simp only [compare?, steps?, Binary64.compare?, Binary64.isNaN_ofInt, Bool.or_false]
    split <;> rfl
  | float x, float y =>
    simp only [compare?, steps?, Binary64.compare?]
    cases Binary64.isNaN x <;> cases Binary64.isNaN y <;> rfl

theorem numbersChain_apart {numbers : List Int64} (apart : Apart numbers) :
    NumbersChain fun v => v.integers ⊆ numbers where
  items h x member := List.Subset.trans (integers_subset_of_mem member) h
  numbers {a b c} hNumA hNumB hNumC ha hb hc o p first second ho hp := by
    rw [compare?_numbers apart hNumA hNumB ha hb] at first
    rw [compare?_numbers apart hNumB hNumC hb hc] at second
    rw [compare?_numbers apart hNumA hNumC ha hc]
    obtain ⟨s, isA, first⟩ := Option.bind_eq_some_iff.1 first
    obtain ⟨t, isB, rfl⟩ := Option.map_eq_some_iff.1 first
    obtain ⟨t', isB', second⟩ := Option.bind_eq_some_iff.1 second
    obtain ⟨u, isC, rfl⟩ := Option.map_eq_some_iff.1 second
    obtain rfl : t' = t := Option.some.inj (isB'.symm.trans isB)
    rw [isA, isC]
    exact congrArg some (then_of_ne_gt ho hp)

theorem apart_of_small {numbers : List Int64}
    (small : ∀ n ∈ numbers, n.toInt.natAbs ≤ 2 * Binary64.binade) : Apart numbers :=
  fun m hm n hn same => Int64.toInt_inj.1 (Binary64.eq_of_same_ofInt (small m hm) (small n hn) same)

/-- The order is transitive among values without doubles, and among values whose integers are
apart. -/
theorem compare?_trans {a b c : Value} {o p : Ordering}
    (apart : (a.FloatFree ∧ b.FloatFree ∧ c.FloatFree) ∨
      Apart (a.integers ++ b.integers ++ c.integers))
    (first : compare? a b = some o) (second : compare? b c = some p) (ho : o ≠ .gt)
    (hp : p ≠ .gt) :
    ∃ q, compare? a c = some q ∧ q ≠ .gt ∧ (q = .eq ↔ o = .eq ∧ p = .eq) := by
  have chains : Chains a b c := by
    rcases apart with ⟨ha, hb, hc⟩ | apart
    · exact numbersChain_floatFree.chains ha hb hc
    · exact (numbersChain_apart apart).chains (by simp) (by simp) (by simp)
  exact ⟨o.then p, chains o p first second ho hp, then_ne_gt ho hp, Ordering.then_eq_eq⟩

theorem compare?_trans_mixed :
    compare? (integer 1) (float (Binary64.ofInt 2)) = some .lt ∧
      compare? (float (Binary64.ofInt 2)) (integer 2) = some .eq ∧
      ∃ q, compare? (integer 1) (integer 2) = some q ∧ q ≠ .gt ∧
        (q = .eq ↔ Ordering.lt = .eq ∧ Ordering.eq = .eq) := by
  have first : compare? (integer 1) (float (Binary64.ofInt 2)) = some .lt := by decide +kernel
  have second : compare? (float (Binary64.ofInt 2)) (integer 2) = some .eq := by decide +kernel
  have small : ∀ n ∈ (integer 1).integers ++ (float (Binary64.ofInt 2)).integers ++
      (integer 2).integers, n.toInt.natAbs ≤ 2 * Binary64.binade := by
    simp [integers, Binary64.binade]
  exact ⟨first, second,
    compare?_trans (.inr (apart_of_small small)) first second (by decide) (by decide)⟩

theorem compare?_tie {m n : Int64}
    (same : Binary64.same (Binary64.ofInt m.toInt) (Binary64.ofInt n.toInt) = true)
    (less : m.toInt < n.toInt) :
    compare? (integer n) (float (Binary64.ofInt m.toInt)) = some .eq ∧
      compare? (float (Binary64.ofInt m.toInt)) (integer m) = some .eq ∧
      compare? (integer n) (integer m) = some .gt := by
  rw [Binary64.same_iff] at same
  refine ⟨?_, ?_, ?_⟩
  · rw [compare?, Binary64.compare?_swap, same]
    rfl
  · simp [compare?, Binary64.compare?_ofInt]
  · rw [compare?, Int.compare_eq_gt.2 less]

theorem compare?_not_trans :
    ¬ ∀ (a b c : Value) (o p : Ordering), compare? a b = some o → compare? b c = some p →
      o ≠ .gt → p ≠ .gt →
      ∃ q, compare? a c = some q ∧ q ≠ .gt ∧ (q = .eq ↔ o = .eq ∧ p = .eq) := by
  intro transitive
  obtain ⟨first, second, third⟩ := compare?_tie (m := 9007199254740992) (n := 9007199254740993)
    (by decide +kernel) (by decide)
  obtain ⟨q, compared, notGreater, -⟩ :=
    transitive _ _ _ _ _ first second (by decide) (by decide)
  rw [third] at compared
  cases compared
  exact notGreater rfl

end Value

end RecordPipeline
