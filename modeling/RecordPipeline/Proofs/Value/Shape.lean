import RecordPipeline.Value

/-!
What stands inside of values: how deep containers are nested, where doubles are, and that the fields
of canonical objects are in key order, so that putting them in order changes nothing.
-/

namespace RecordPipeline

namespace Fields

variable {α : Type}

theorem insert_of_last {key : String} {item : α} {fields : List (String × α)}
    (last : ∀ field ∈ fields, field.1 < key) : insert key item fields = fields ++ [(key, item)] := by
  induction fields with
  | nil => rfl
  | cons field later ih =>
    have before := last field (by simp)
    have notBefore : ¬key < field.1 := fun after => String.lt_irrefl _ (String.lt_trans before after)
    have notSame : ¬key = field.1 := fun same => String.lt_irrefl _ (same ▸ before)
    rw [insert, if_neg notBefore, if_neg notSame,
      ih fun other member => last other (List.mem_cons_of_mem field member)]
    rfl

theorem merge_of_sorted {earlier later : List (String × α)} (sorted : Sorted (earlier ++ later)) :
    merge earlier later = earlier ++ later := by
  induction later generalizing earlier with
  | nil => rw [List.append_nil]; rfl
  | cons field later ih =>
    have last := (List.pairwise_append.1 sorted).2.2
    have inserted : insert field.1 field.2 earlier = earlier ++ [field] :=
      insert_of_last fun other member => last other member field (by simp)
    have sorted' : Sorted (earlier ++ [field] ++ later) := by simpa using sorted
    have merged := ih sorted'
    rw [merge, List.foldl_cons, inserted, ← merge, merged]
    simp

theorem ofList_of_sorted {fields : List (String × α)} (sorted : Sorted fields) :
    ofList fields = fields := by
  have merged : merge [] fields = [] ++ fields := merge_of_sorted sorted
  exact merged

end Fields

namespace Value

@[elab_as_elim]
theorem induction_on_parts {motive : Value → Prop} (v : Value)
    (array : ∀ items, (∀ item ∈ items, motive item) → motive (array items))
    (object : ∀ fields, (∀ field ∈ fields, motive field.2) → motive (object fields))
    (other : ∀ v, (∀ items, v ≠ .array items) → (∀ fields, v ≠ .object fields) → motive v) :
    motive v := by
  match v with
  | .array items => exact array items fun item _ => induction_on_parts item array object other
  | .object fields =>
    exact object fields fun field member =>
      have smaller : sizeOf field.2 < 1 + sizeOf fields := by
        have := List.sizeOf_lt_of_mem member
        obtain ⟨name, item⟩ := field
        simp only [Prod.mk.sizeOf_spec] at this ⊢
        omega
      induction_on_parts field.2 array object other
  | .null | .boolean _ | .integer _ | .float _ | .string _ => exact other _ (by simp) (by simp)

mutual

def floats : Value → List Float
  | float x => [x]
  | array items => floatsOf items
  | object fields => floatsOfFields fields
  | _ => []

def floatsOf : List Value → List Float
  | [] => []
  | item :: later => item.floats ++ floatsOf later

def floatsOfFields : List (String × Value) → List Float
  | [] => []
  | (_, item) :: later => item.floats ++ floatsOfFields later

end

theorem forall_floats_array {items : List Value} {P : Float → Prop} :
    (∀ x ∈ (array items).floats, P x) ↔ ∀ item ∈ items, ∀ x ∈ item.floats, P x := by
  rw [floats]
  induction items with
  | nil => simp [floatsOf]
  | cons item later ih => simp only [floatsOf, List.forall_mem_append, List.forall_mem_cons, ih]

theorem forall_floats_object {fields : List (String × Value)} {P : Float → Prop} :
    (∀ x ∈ (object fields).floats, P x) ↔ ∀ field ∈ fields, ∀ x ∈ field.2.floats, P x := by
  rw [floats]
  induction fields with
  | nil => simp [floatsOfFields]
  | cons field later ih =>
    simp only [floatsOfFields, List.forall_mem_append, List.forall_mem_cons, ih]

mutual

def depth : Value → Nat
  | array items => depthItems items + 1
  | object fields => depthFields fields + 1
  | _ => 0

def depthItems : List Value → Nat
  | [] => 0
  | item :: later => max item.depth (depthItems later)

def depthFields : List (String × Value) → Nat
  | [] => 0
  | (_, item) :: later => max item.depth (depthFields later)

end

mutual

def FloatFree : Value → Prop
  | float _ => False
  | array items => FloatFreeItems items
  | object fields => FloatFreeFields fields
  | _ => True

def FloatFreeItems : List Value → Prop
  | [] => True
  | item :: later => item.FloatFree ∧ FloatFreeItems later

def FloatFreeFields : List (String × Value) → Prop
  | [] => True
  | (_, item) :: later => item.FloatFree ∧ FloatFreeFields later

end

theorem floatFreeItems_iff {items : List Value} :
    FloatFreeItems items ↔ ∀ item ∈ items, item.FloatFree := by
  induction items with
  | nil => simp [FloatFreeItems]
  | cons item later ih => simp [FloatFreeItems, ih]

theorem floatFreeFields_iff {fields : List (String × Value)} :
    FloatFreeFields fields ↔ ∀ field ∈ fields, field.2.FloatFree := by
  induction fields with
  | nil => simp [FloatFreeFields]
  | cons field later ih => simp [FloatFreeFields, ih]

theorem canonicalItems_iff {items : List Value} :
    CanonicalItems items ↔ ∀ item ∈ items, item.Canonical := by
  induction items with
  | nil => simp [CanonicalItems]
  | cons item later ih => simp [CanonicalItems, ih]

theorem canonicalFields_iff {fields : List (String × Value)} :
    CanonicalFields fields ↔ ∀ field ∈ fields, field.2.Canonical := by
  induction fields with
  | nil => simp [CanonicalFields]
  | cons field later ih => simp [CanonicalFields, ih]

end Value

end RecordPipeline
