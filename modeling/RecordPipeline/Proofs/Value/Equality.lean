import RecordPipeline.Proofs.Value.Comparison

/-!
The loose equality and the containers it looks into. An array equals another item by item, so a
double in place of an integer that it equals is not noticed inside arrays, however deep. Objects are
left to the strict equality with all that is in them, and there the double is noticed.
-/

namespace RecordPipeline

namespace Binary64

theorem same_iff_steps {x y : Float} :
    same x y = true ↔ isNaN x = false ∧ isNaN y = false ∧ steps x = steps y := by
  rw [same_iff, compare?]
  cases isNaN x <;> cases isNaN y <;> simp

theorem same_comm (x y : Float) : same x y = same y x := by
  rw [Bool.eq_iff_iff, same_iff_steps, same_iff_steps]
  exact ⟨fun ⟨hx, hy, h⟩ => ⟨hy, hx, h.symm⟩, fun ⟨hy, hx, h⟩ => ⟨hx, hy, h.symm⟩⟩

theorem same_congr {x y : Float} (h : same x y = true) (z : Float) : same x z = same y z := by
  obtain ⟨hx, hy, steps⟩ := same_iff_steps.1 h
  rw [Bool.eq_iff_iff, same_iff_steps, same_iff_steps, hx, hy, steps]

theorem eq_of_same_ofInt_of_small {m n : Int} (small : n.natAbs < 2 * binade)
    (h : same (ofInt m) (ofInt n) = true) : m = n := by
  obtain ⟨-, -, equal⟩ := same_iff_steps.1 h
  have edge (s : Int) (size : s.natAbs = 2 * binade) : steps (ofInt s) = s * stepsPerOne :=
    steps_ofInt_exact (Nat.le_of_eq size)
  have pos : (0 : Int) < stepsPerOne := Int.natCast_pos.2 stepsPerOne_pos
  rw [steps_ofInt_exact (Nat.le_of_lt small)] at equal
  by_cases within : m.natAbs ≤ 2 * binade
  · exact eq_of_same_ofInt within (Nat.le_of_lt small) h
  rcases Int.lt_or_le m 0 with negative | positive
  · have least := steps_ofInt_mono (show m ≤ -(2 * binade : Nat) by omega)
    simp only [edge (-(2 * binade : Nat)) (by omega), equal] at least
    have := Int.le_of_mul_le_mul_right least pos
    omega
  · have least := steps_ofInt_mono (show ((2 * binade : Nat) : Int) ≤ m by omega)
    simp only [edge ((2 * binade : Nat) : Int) (by omega), equal] at least
    have := Int.le_of_mul_le_mul_right least pos
    omega

end Binary64

theorem forall₂_comm {α : Type} {R : α → α → Prop} {as bs : List α}
    (each : ∀ a ∈ as, ∀ b, R a b ↔ R b a) : List.Forall₂ R as bs ↔ List.Forall₂ R bs as := by
  induction as generalizing bs with
  | nil => cases bs <;> simp
  | cons a as ih =>
    cases bs with
    | nil => simp
    | cons b bs =>
      rw [List.forall₂_cons, List.forall₂_cons, each a (by simp),
        ih fun other member => each other (List.mem_cons_of_mem a member)]

theorem forall₂_append_cons_iff {α : Type} {R : α → α → Prop} {before after : List α} {a b : α} :
    List.Forall₂ R (before ++ a :: after) (before ++ b :: after) ↔
      (∀ c ∈ before, R c c) ∧ R a b ∧ ∀ c ∈ after, R c c := by
  induction before with
  | nil => simp [List.forall₂_same]
  | cons c before ih => simp [ih, and_assoc]

namespace Fields

variable {α : Type} {fields others : List (String × α)}

theorem get?_cons (key name : String) (item : α) :
    get? key ((name, item) :: fields) = if key = name then some item else get? key fields := by
  by_cases same : key = name
  · simp [get?, same]
  · simp [get?, List.lookup, same, beq_false_of_ne]

theorem get?_first (name : String) (item : α) : get? name ((name, item) :: fields) = some item := by
  rw [get?_cons, if_pos rfl]

theorem get?_eq_none_of_lt {key : String} (after : ∀ field ∈ fields, key < field.1) :
    get? key fields = none := by
  induction fields with
  | nil => rfl
  | cons field later ih =>
    obtain ⟨name, item⟩ := field
    have apart : key ≠ name := fun same => String.lt_irrefl _ (same ▸ after (name, item) (by simp))
    rw [get?_cons, if_neg apart]
    exact ih fun other member => after other (List.mem_cons_of_mem _ member)

theorem le_of_get?_ne_none {key name : String} {item : α} (sorted : Sorted ((name, item) :: fields))
    (found : get? key ((name, item) :: fields) ≠ none) : name ≤ key := by
  refine not_lt.1 fun less => found ?_
  exact get?_eq_none_of_lt <| List.forall_mem_cons.2 ⟨less, fun field member =>
    String.lt_trans less ((List.pairwise_cons.1 sorted).1 field member)⟩

/-- Fields in key order are related field by field just where what they hold is related key by
key. -/
theorem forall₂_iff_get? (R : α → α → Prop) (sorted : Sorted fields) (sorted' : Sorted others) :
    List.Forall₂ (fun f g => f.1 = g.1 ∧ R f.2 g.2) fields others ↔
      ∀ key, Option.Rel R (get? key fields) (get? key others) := by
  induction fields generalizing others with
  | nil =>
    cases others with
    | nil => exact iff_of_true .nil fun key => .none
    | cons other more =>
      refine iff_of_false (fun h => nomatch h) fun h => ?_
      have := h other.1
      rw [get?_first] at this
      cases this
  | cons field later ih =>
    obtain ⟨name, item⟩ := field
    have ⟨least, rest⟩ := List.pairwise_cons.1 sorted
    constructor
    · intro h key
      cases h with
      | @cons _ other _ more head tail =>
        obtain ⟨same, related⟩ := head
        obtain ⟨name', item'⟩ := other
        obtain rfl : name = name' := same
        rw [get?_cons, get?_cons]
        split
        · exact .some related
        · exact (ih rest (List.pairwise_cons.1 sorted').2).1 tail key
    · intro h
      have atName := h name
      rw [get?_first] at atName
      cases others with
      | nil => cases atName
      | cons other more =>
        obtain ⟨name', item'⟩ := other
        have ⟨least', rest'⟩ := List.pairwise_cons.1 sorted'
        have atName' := h name'
        rw [get?_first] at atName'
        have above : name ≤ name' := le_of_get?_ne_none sorted fun missing => by
          rw [missing] at atName'
          cases atName'
        have below : name' ≤ name := le_of_get?_ne_none sorted' fun missing => by
          rw [missing] at atName
          cases atName
        obtain rfl : name = name' := le_antisymm above below
        rw [get?_first] at atName
        cases atName with
        | some related =>
          refine .cons ⟨rfl, related⟩ ((ih rest rest').2 fun key => ?_)
          by_cases first : key = name
          · rw [first, get?_eq_none_of_lt least, get?_eq_none_of_lt least']
            exact .none
          · have := h key
            rwa [get?_cons, get?_cons, if_neg first, if_neg first] at this

end Fields

namespace Value

theorem strictEqItems_iff {as bs : List Value} :
    strictEqItems as bs = true ↔ List.Forall₂ (fun a b => strictEq a b = true) as bs := by
  induction as generalizing bs with
  | nil => cases bs <;> simp [strictEqItems]
  | cons a as ih => cases bs <;> simp [strictEqItems, ih]

theorem strictEqFields_iff {fields others : List (String × Value)} :
    strictEqFields fields others = true ↔
      List.Forall₂ (fun f g => f.1 = g.1 ∧ strictEq f.2 g.2 = true) fields others := by
  induction fields generalizing others with
  | nil => cases others <;> simp [strictEqFields]
  | cons field later ih => cases others <;> simp [strictEqFields, ih]

theorem looseEqItems_iff {as bs : List Value} :
    looseEqItems as bs = true ↔ List.Forall₂ (fun a b => looseEq a b = true) as bs := by
  induction as generalizing bs with
  | nil => cases bs <;> simp [looseEqItems]
  | cons a as ih => cases bs <;> simp [looseEqItems, ih]

theorem looseEq_object (fields others : List (String × Value)) :
    looseEq (object fields) (object others) = strictEqFields fields others := by
  simp [looseEq, strictEq]

theorem strictEq_self {v : Value} (numbers : ∀ x ∈ v.floats, Binary64.isNaN x = false) :
    strictEq v v = true := by
  induction v using induction_on_parts with
  | array items ih =>
    rw [forall_floats_array] at numbers
    rw [strictEq, strictEqItems_iff, List.forall₂_same]
    exact fun item member => ih item member (numbers item member)
  | object fields ih =>
    rw [forall_floats_object] at numbers
    rw [strictEq, strictEqFields_iff, List.forall₂_same]
    exact fun field member => ⟨rfl, ih field member (numbers field member)⟩
  | other v noArray noObject =>
    cases v with
    | array items => exact absurd rfl (noArray items)
    | object fields => exact absurd rfl (noObject fields)
    | float x =>
      have number := numbers x (by simp [floats])
      rw [strictEq, Binary64.same_iff_steps]
      exact ⟨number, number, rfl⟩
    | _ => simp [strictEq]

theorem looseEq_self {v : Value} (numbers : ∀ x ∈ v.floats, Binary64.isNaN x = false) :
    looseEq v v = true := by
  induction v using induction_on_items with
  | array items ih =>
    rw [forall_floats_array] at numbers
    rw [looseEq_array, looseEqItems_iff, List.forall₂_same]
    exact fun item member => ih item member (numbers item member)
  | other v noArray =>
    have equal := strictEq_self numbers
    cases v with
    | array items => exact absurd rfl (noArray items)
    | _ => simpa [looseEq] using equal

theorem strictEq_comm (v w : Value) : strictEq v w = strictEq w v := by
  induction v using induction_on_parts generalizing w with
  | array items ih =>
    cases w with
    | array others =>
      rw [strictEq, strictEq, Bool.eq_iff_iff, strictEqItems_iff, strictEqItems_iff]
      exact forall₂_comm fun item member w => by rw [ih item member w]
    | _ => simp [strictEq]
  | object fields ih =>
    cases w with
    | object others =>
      rw [strictEq, strictEq, Bool.eq_iff_iff, strictEqFields_iff, strictEqFields_iff]
      exact forall₂_comm fun field member other => by rw [ih field member other.2, eq_comm]
    | _ => simp [strictEq]
  | other v noArray noObject =>
    cases v with
    | array items => exact absurd rfl (noArray items)
    | object fields => exact absurd rfl (noObject fields)
    | float x => cases w <;> simp [strictEq, Binary64.same_comm x]
    | _ => cases w <;> simp [strictEq, Bool.beq_comm]

theorem looseEq_comm (v w : Value) : looseEq v w = looseEq w v := by
  induction v using induction_on_items generalizing w with
  | array items ih =>
    cases w with
    | array others =>
      rw [looseEq_array, looseEq_array, Bool.eq_iff_iff, looseEqItems_iff, looseEqItems_iff]
      exact forall₂_comm fun item member w => by rw [ih item member w]
    | _ => simp [looseEq, strictEq]
  | other v noArray =>
    have strict := strictEq_comm v w
    cases v with
    | array items => exact absurd rfl (noArray items)
    | integer n => cases w <;> simp [looseEq, strict, Binary64.same_comm]
    | float x => cases w <;> simp [looseEq, strict, Binary64.same_comm]
    | _ => cases w <;> simp [looseEq, strict]

/-- The second value has the double in one place where the first has the integer; whether an object
is on the way there makes the difference. -/
inductive Promotes (n : Int64) (x : Float) : Bool → Value → Value → Prop where
  | number : Promotes n x false (integer n) (float x)
  | item {inObject : Bool} {v w : Value} {before after : List Value}
      (part : Promotes n x inObject v w) :
      Promotes n x inObject (array (before ++ v :: after)) (array (before ++ w :: after))
  | field {inObject : Bool} {v w : Value} {key : String} {before after : List (String × Value)}
      (part : Promotes n x inObject v w) :
      Promotes n x true (object (before ++ (key, v) :: after)) (object (before ++ (key, w) :: after))

variable {n : Int64} {x : Float} {inObject : Bool} {v w : Value}

theorem Promotes.strictEq_eq_false (promotes : Promotes n x inObject v w) :
    strictEq v w = false := by
  induction promotes with
  | number => simp [strictEq]
  | item _ ih =>
    rw [strictEq, Bool.eq_false_iff, ne_eq, strictEqItems_iff, forall₂_append_cons_iff, ih]
    simp
  | field _ ih =>
    rw [strictEq, Bool.eq_false_iff, ne_eq, strictEqFields_iff, forall₂_append_cons_iff, ih]
    simp

theorem Promotes.looseEq_eq (promotes : Promotes n x inObject v w)
    (loose : looseEq (integer n) (float x) = true)
    (numbers : ∀ y ∈ v.floats, Binary64.isNaN y = false) : looseEq v w = !inObject := by
  induction promotes with
  | number => exact loose
  | @item inObject v w before after _ ih =>
    rw [forall_floats_array, List.forall_mem_append, List.forall_mem_cons] at numbers
    rw [looseEq_array, ← ih numbers.2.1, Bool.eq_iff_iff, looseEqItems_iff, forall₂_append_cons_iff]
    exact ⟨fun h => h.2.1, fun h => ⟨fun u member => looseEq_self (numbers.1 u member), h,
      fun u member => looseEq_self (numbers.2.2 u member)⟩⟩
  | @field inObject v w key before after part =>
    have seen : strictEq (object (before ++ (key, v) :: after))
        (object (before ++ (key, w) :: after)) = false := (Promotes.field part).strictEq_eq_false
    rw [strictEq] at seen
    rw [looseEq_object, seen]
    rfl

theorem looseEqItems_congr {before after items : List Value}
    (same : ∀ u, looseEq v u = looseEq w u) :
    looseEqItems (before ++ v :: after) items = looseEqItems (before ++ w :: after) items := by
  induction before generalizing items with
  | nil => cases items <;> simp [looseEqItems, same]
  | cons b before ih => cases items <;> simp [looseEqItems, ih]

/-- No third value tells the two apart where the double is that of no other integer. -/
theorem Promotes.looseEq_congr (promotes : Promotes n x inObject v w) (arrays : inObject = false)
    (loose : looseEq (integer n) (float x) = true) (small : n.toInt.natAbs < 2 ^ 53) (u : Value) :
    looseEq v u = looseEq w u := by
  induction promotes generalizing u with
  | number =>
    have equal : Binary64.same (Binary64.ofInt n.toInt) x = true := by simpa [looseEq] using loose
    cases u with
    | integer m =>
      simp only [looseEq, strictEq]
      rw [Bool.eq_iff_iff, beq_iff_eq, ← Binary64.same_congr equal]
      constructor
      · rintro rfl
        rw [Binary64.same_congr equal, Binary64.same_comm]
        exact equal
      · intro shared
        rw [Binary64.same_comm] at shared
        exact (Int64.toInt_inj.1 (Binary64.eq_of_same_ofInt_of_small small shared)).symm
    | float y => simp [looseEq, strictEq, Binary64.same_congr equal]
    | _ => simp [looseEq, strictEq]
  | item _ ih =>
    cases u with
    | array items =>
      rw [looseEq_array, looseEq_array]
      exact looseEqItems_congr (ih arrays)
    | _ => simp [looseEq, strictEq]
  | field => cases arrays

end Value

theorem Operator.member_array (decimals : DecimalLibrary) (v : Value) (items : List Value) :
    member.apply decimals v (.array items) = .ok (.boolean (items.any fun u => Value.looseEq u v)) := by
  rw [apply, Value.holds.eq_def]
  rfl

namespace Value

structure Answers (same : Bool) (v w : Value) : Prop where
  loose : looseEq v w = same
  equal : ∀ decimals, Operator.equal.apply decimals v w = .ok (.boolean same)
  notEqual : ∀ decimals, Operator.notEqual.apply decimals v w = .ok (.boolean !same)
  member : ∀ decimals, Operator.member.apply decimals v (array [w]) = .ok (.boolean same)

theorem answers (v w : Value) : Answers (looseEq v w) v w where
  loose := rfl
  equal _ := rfl
  notEqual _ := rfl
  member _ := by
    rw [Operator.member_array, List.any_cons, List.any_nil, Bool.or_false, looseEq_comm]

/-- No third value makes the operators of equality answer on one value otherwise than on the other,
and they find the two in the same arrays. -/
structure Interchangeable (v w : Value) : Prop where
  equal : ∀ decimals u, Operator.equal.apply decimals v u = Operator.equal.apply decimals w u ∧
    Operator.equal.apply decimals u v = Operator.equal.apply decimals u w
  notEqual : ∀ decimals u,
    Operator.notEqual.apply decimals v u = Operator.notEqual.apply decimals w u ∧
      Operator.notEqual.apply decimals u v = Operator.notEqual.apply decimals u w
  member : ∀ decimals items, Operator.member.apply decimals v (array items) =
    Operator.member.apply decimals w (array items)
  item : ∀ decimals u before after,
    Operator.member.apply decimals u (array (before ++ v :: after)) =
      Operator.member.apply decimals u (array (before ++ w :: after))

theorem interchangeable (same : ∀ u, looseEq v u = looseEq w u) : Interchangeable v w := by
  have flipped (u : Value) : looseEq u v = looseEq u w := by
    rw [looseEq_comm, same, looseEq_comm]
  refine ⟨fun _ u => ⟨?_, ?_⟩, fun _ u => ⟨?_, ?_⟩, fun _ items => ?_, fun _ u before after => ?_⟩
  · rw [Operator.apply, Operator.apply, same]
  · rw [Operator.apply, Operator.apply, flipped]
  · rw [Operator.apply, Operator.apply, same]
  · rw [Operator.apply, Operator.apply, flipped]
  · simp only [Operator.member_array, flipped]
  · simp only [Operator.member_array, List.any_append, List.any_cons, same]

/-- Arrays are equal item by item and objects strictly key by key. A double in place of an integer
that it equals is therefore not noticed inside arrays, and always noticed inside an object. -/
theorem looseEq_structural (v w : Value) :
    (∀ as bs, v = array as → w = array bs →
      (looseEq v w = true ↔ as.length = bs.length ∧
        ∀ (i : Nat) (a b : Value), as[i]? = some a → bs[i]? = some b → looseEq a b = true)) ∧
    (∀ fields others, v = object fields → w = object others →
      Fields.Sorted fields → Fields.Sorted others →
      (looseEq v w = true ↔ ∀ key, Option.Rel (fun a b => strictEq a b = true)
        (Fields.get? key fields) (Fields.get? key others))) ∧
    ∀ n x inObject, looseEq (integer n) (float x) = true →
      (∀ y ∈ v.floats, Binary64.isNaN y = false) → Promotes n x inObject v w →
        Answers (!inObject) v w ∧ Answers (!inObject) w v ∧
          (inObject = false → n.toInt.natAbs < 2 ^ 53 → Interchangeable v w) := by
  refine ⟨?_, ?_, fun n x inObject loose numbers promotes => ?_⟩
  · rintro as bs rfl rfl
    rw [looseEq_array, looseEqItems_iff, List.forall₂_iff_get]
    refine and_congr_right fun _ => ⟨fun h i a b atA atB => ?_, fun h i hA hB => ?_⟩
    · obtain ⟨hA, rfl⟩ := List.getElem?_eq_some_iff.1 atA
      obtain ⟨hB, rfl⟩ := List.getElem?_eq_some_iff.1 atB
      exact h i hA hB
    · exact h i _ _ (List.getElem?_eq_getElem hA) (List.getElem?_eq_getElem hB)
  · rintro fields others rfl rfl sorted sorted'
    rw [looseEq_object, strictEqFields_iff]
    exact Fields.forall₂_iff_get? (fun a b => strictEq a b = true) sorted sorted'
  · have here := promotes.looseEq_eq loose numbers
    have back : looseEq w v = !inObject := by rw [looseEq_comm, here]
    exact ⟨here ▸ answers v w, back ▸ answers w v,
      fun arrays small => interchangeable (promotes.looseEq_congr arrays loose small)⟩

/-- One and its double inside two arrays, and inside an object. -/
theorem looseEq_structural_one :
    looseEq (integer 1) (float (Binary64.ofInt 1)) = true ∧
      Interchangeable (array [null, array [integer 1]])
        (array [null, array [float (Binary64.ofInt 1)]]) ∧
      Answers true (array [null, array [integer 1]])
        (array [null, array [float (Binary64.ofInt 1)]]) ∧
      Answers false (array [object [("a", integer 1)]])
        (array [object [("a", float (Binary64.ofInt 1))]]) ∧
      ∀ key, Option.Rel (fun a b => strictEq a b = true) (Fields.get? key [("a", integer 1)])
        (Fields.get? key [("a", integer 1)]) := by
  have loose : looseEq (integer 1) (float (Binary64.ofInt 1)) = true := by decide +kernel
  have item : Promotes 1 (Binary64.ofInt 1) false (array ([] ++ [integer 1]))
      (array ([] ++ [float (Binary64.ofInt 1)])) := .item .number
  have arrays : Promotes 1 (Binary64.ofInt 1) false (array ([null] ++ [array [integer 1]]))
      (array ([null] ++ [array [float (Binary64.ofInt 1)]])) := .item item
  have field : Promotes 1 (Binary64.ofInt 1) true (object ([] ++ [("a", integer 1)]))
      (object ([] ++ [("a", float (Binary64.ofInt 1))])) := .field .number
  have inside : Promotes 1 (Binary64.ofInt 1) true (array ([] ++ [object [("a", integer 1)]]))
      (array ([] ++ [object [("a", float (Binary64.ofInt 1))]])) := .item field
  have sorted : Fields.Sorted [("a", integer 1)] := List.pairwise_singleton _ _
  obtain ⟨-, -, promoted⟩ := looseEq_structural (array [null, array [integer 1]])
    (array [null, array [float (Binary64.ofInt 1)]])
  obtain ⟨-, -, noticed⟩ := looseEq_structural (array [object [("a", integer 1)]])
    (array [object [("a", float (Binary64.ofInt 1))]])
  obtain ⟨-, fields, -⟩ := looseEq_structural (object [("a", integer 1)])
    (object [("a", integer 1)])
  obtain ⟨equal, -, same⟩ := promoted _ _ _ loose (by simp [floats, floatsOf]) arrays
  obtain ⟨different, -, -⟩ :=
    noticed _ _ _ loose (by simp [floats, floatsOf, floatsOfFields]) inside
  exact ⟨loose, same rfl (by decide), equal, different,
    (fields _ _ rfl rfl sorted sorted).1 (looseEq_self (by simp [floats, floatsOfFields]))⟩

/-- Objects of the same keys with loosely equal values under each need not be loosely equal. -/
theorem looseEq_object_strict :
    (∀ key, Option.Rel (fun a b => looseEq a b = true) (Fields.get? key [("a", integer 1)])
      (Fields.get? key [("a", float (Binary64.ofInt 1))])) ∧
    looseEq (object [("a", integer 1)]) (object [("a", float (Binary64.ofInt 1))]) = false := by
  refine ⟨fun key => ?_, by decide +kernel⟩
  rw [Fields.get?_cons, Fields.get?_cons]
  split
  · exact .some (by decide +kernel)
  · exact .none

end Value

end RecordPipeline
