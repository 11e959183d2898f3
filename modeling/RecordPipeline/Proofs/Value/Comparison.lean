import RecordPipeline.Eval
import RecordPipeline.Platform.Reference
import RecordPipeline.Proofs.Value.Order

/-!
Order and equality of values say the same. One stops at the first difference and the other one looks
at every item, but where two values compare they are loosely equal if and only if neither is less,
so each of the six operators of comparison can be told from the others.
-/

namespace RecordPipeline

namespace Value

theorem looseEqItems_iff_of_compareItems? {as bs : List Value} {o : Ordering}
    (each : ∀ a ∈ as, ∀ b o, compare? a b = some o → (looseEq a b = true ↔ o = .eq))
    (h : compareItems? as bs = some o) : looseEqItems as bs = true ↔ o = .eq := by
  induction as generalizing bs with
  | nil =>
    cases bs <;> cases h <;> simp [looseEqItems]
  | cons a as ih =>
    cases bs with
    | nil =>
      cases h
      simp [looseEqItems]
    | cons b bs =>
      rw [compareItems?_cons] at h
      obtain ⟨head, first, h⟩ := Option.bind_eq_some_iff.1 h
      have equalHeads := each a (by simp) b head first
      rw [looseEqItems_cons, Bool.and_eq_true, equalHeads]
      by_cases same : head = .eq
      · rw [if_pos same] at h
        rw [ih (fun x member => each x (List.mem_cons_of_mem a member)) h]
        exact and_iff_right same
      -- the items behind the first difference are never looked at, and need not compare
      · rw [if_neg same, Option.some.injEq] at h
        subst h
        exact iff_of_false (fun both => same both.1) same

theorem looseEq_iff_of_compare? {a b : Value} {o : Ordering} (h : compare? a b = some o) :
    looseEq a b = true ↔ o = .eq := by
  induction a using induction_on_items generalizing b o with
  | array as ih =>
    cases alike_of_compare? h with
    | numbers number => exact number.elim
    | arrays =>
      rw [compare?] at h
      rw [looseEq_array]
      exact looseEqItems_iff_of_compareItems? (fun a member b o => ih a member) h
  | other a noArray =>
    cases alike_of_compare? h with
    | arrays => exact absurd rfl (noArray _)
    | strings | booleans =>
      rw [compare?, Option.some.injEq] at h
      subst h
      simp [looseEq, strictEq]
    | numbers first second =>
      cases a with
      | integer m =>
        cases b with
        | integer n =>
          rw [compare?, Option.some.injEq] at h
          subst h
          simp [looseEq, strictEq, Int64.toInt_inj]
        | float y =>
          rw [compare?] at h
          simp [looseEq, Binary64.same, h]
        | _ => exact second.elim
      | float x =>
        cases b with
        | integer _ | float _ =>
          rw [compare?] at h
          simp [looseEq, strictEq, Binary64.same, h]
        | _ => exact second.elim
      | _ => exact first.elim

end Value

def Operator.accepts (op : Operator) (o : Ordering) : Bool :=
  match op with
  | equal => o.isEq
  | notEqual => o.isNe
  | less => o.isLT
  | greater => o.isGT
  | lessEqual => o.isLE
  | greaterEqual => o.isGE
  | _ => false

def Operator.comparisons : List Operator :=
  [equal, notEqual, less, greater, lessEqual, greaterEqual]

theorem Operator.apply_of_compare? {a b : Value} {o : Ordering} (h : Value.compare? a b = some o)
    {op : Operator} (member : op ∈ comparisons) (decimals : DecimalLibrary) :
    op.apply decimals a b = .ok (.boolean (op.accepts o)) := by
  have equality : Value.looseEq a b = o.isEq := by
    rw [Bool.eq_iff_iff, Value.looseEq_iff_of_compare? h, Ordering.isEq_iff_eq_eq]
  simp only [comparisons, List.mem_cons, List.not_mem_nil, or_false] at member
  rcases member with rfl | rfl | rfl | rfl | rfl | rfl
  · rw [apply, equality, accepts]
  · rw [apply, equality, accepts]
    cases o <;> rfl
  all_goals
    rw [apply, Value.comparison, h]
    rfl

namespace Expr

variable {platform : Platform} {input : Value} {l r : Expr} {a b : Value}

theorem eval_binary {op : Operator} (noAnd : op ≠ .and) (noOr : op ≠ .or)
    (left : l.eval platform input = .ok a) (right : r.eval platform input = .ok b) :
    (binary op l r).eval platform input = op.apply platform.decimals a b := by
  rw [eval, left]
  cases op with
  | and => exact absurd rfl noAnd
  | or => exact absurd rfl noOr
  | _ => simp only [bind, Except.bind, right]

theorem eval_or {p q : Bool} (left : l.eval platform input = .ok (.boolean p))
    (right : r.eval platform input = .ok (.boolean q)) :
    (binary .or l r).eval platform input = .ok (.boolean (p || q)) := by
  rw [eval, left]
  cases p <;> simp [bind, Except.bind, Value.isTruthy, right, pure, Except.pure]

theorem eval_not {p : Bool} (operand : l.eval platform input = .ok (.boolean p)) :
    (not l).eval platform input = .ok (.boolean !p) := by
  rw [eval, operand]
  rfl

/-- Every comparison of two expressions is told from `<` and `==`, whose answers are those of the
order of the values. -/
structure ComparesAs (platform : Platform) (input : Value) (l r : Expr) (o : Ordering) : Prop where
  less : (binary .less l r).eval platform input = .ok (.boolean (o == .lt))
  equal : (binary .equal l r).eval platform input = .ok (.boolean (o == .eq))
  lessEqual : (binary .lessEqual l r).eval platform input =
    (binary .or (binary .less l r) (binary .equal l r)).eval platform input
  greaterEqual : (binary .greaterEqual l r).eval platform input =
    (not (binary .less l r)).eval platform input
  greater : (binary .greater l r).eval platform input = (binary .less r l).eval platform input
  notEqual : (binary .notEqual l r).eval platform input =
    (binary .or (binary .less l r) (binary .greater l r)).eval platform input

theorem comparesAs {o : Ordering} (h : Value.compare? a b = some o)
    (left : l.eval platform input = .ok a) (right : r.eval platform input = .ok b) :
    ComparesAs platform input l r o := by
  have answer (op : Operator) (member : op ∈ Operator.comparisons) :
      (binary op l r).eval platform input = .ok (.boolean (op.accepts o)) := by
    rw [eval_binary (by rintro rfl; exact absurd member (by decide))
      (by rintro rfl; exact absurd member (by decide)) left right]
    exact Operator.apply_of_compare? h member _
  have less := answer .less (by decide)
  have equal := answer .equal (by decide)
  have greater := answer .greater (by decide)
  have exchanged : (binary .less r l).eval platform input = .ok (.boolean o.swap.isLT) := by
    rw [eval_binary (by decide) (by decide) right left]
    have listed : Operator.less ∈ Operator.comparisons := by decide
    refine Operator.apply_of_compare? ?_ listed _
    rw [Value.compare?_swap, h]
    rfl
  refine ⟨?_, ?_, ?_, ?_, ?_, ?_⟩
  · rw [less]
    cases o <;> rfl
  · rw [equal]
    cases o <;> rfl
  · rw [eval_or less equal, answer .lessEqual (by decide)]
    cases o <;> rfl
  · rw [eval_not less, answer .greaterEqual (by decide)]
    cases o <;> rfl
  · rw [exchanged, greater]
    cases o <;> rfl
  · rw [eval_or less greater, answer .notEqual (by decide)]
    cases o <;> rfl

end Expr

/-- Order and equality agree: exchanging two values turns their order around, two values that compare
are loosely equal if and only if neither is less, and the comparisons of the language answer
accordingly. -/
theorem Value.compare?_agrees (a b : Value) :
    compare? b a = (compare? a b).map Ordering.swap ∧
      ∀ o, compare? a b = some o →
        (looseEq a b = true ↔ o = .eq) ∧
          ∀ (platform : Platform) (input : Value) (l r : Expr), l.eval platform input = .ok a →
            r.eval platform input = .ok b → Expr.ComparesAs platform input l r o :=
  ⟨compare?_swap a b, fun _ compared => ⟨looseEq_iff_of_compare? compared,
    fun _ _ _ _ left right => Expr.comparesAs compared left right⟩⟩

/-- Items behind the first difference need not compare. -/
theorem Value.compare?_agrees_nulls :
    compare? (array [integer 1, null]) (array [float (Binary64.ofInt 2), null]) = some .lt ∧
      looseEq (array [integer 1, null]) (array [float (Binary64.ofInt 2), null]) = false ∧
      Expr.ComparesAs (.reference ⟨0, 0, 0⟩)
        (array [array [integer 1, null], array [float (Binary64.ofInt 2), null]])
        (.index .record (.integer 0)) (.index .record (.integer 1)) .lt := by
  have compared : compare? (array [integer 1, null]) (array [float (Binary64.ofInt 2), null]) =
      some .lt := by decide +kernel
  have ⟨equality, operators⟩ :=
    (compare?_agrees (array [integer 1, null]) (array [float (Binary64.ofInt 2), null])).2 _ compared
  refine ⟨compared, ?_, operators _ _ _ _ rfl rfl⟩
  rw [Bool.eq_false_iff]
  exact fun same => nomatch equality.1 same

end RecordPipeline
