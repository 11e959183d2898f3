/-!
Records and the values in them. Integers and doubles are kept apart, and an object is the list of
its fields in increasing order of their keys, so two objects with the same fields are the same list.
-/

namespace RecordPipeline

inductive Value where
  | null
  | boolean (b : Bool)
  | integer (n : Int64)
  | float (x : Float)
  | string (s : String)
  | array (items : List Value)
  | object (fields : List (String × Value))

namespace Value

inductive Kind where
  | null | boolean | integer | float | string | array | object
deriving DecidableEq, Repr

def Kind.name : Kind → String
  | .null => "null"
  | .boolean => "boolean"
  | .integer => "integer"
  | .float => "float"
  | .string => "string"
  | .array => "array"
  | .object => "object"

def kind : Value → Kind
  | null => .null
  | boolean _ => .boolean
  | integer _ => .integer
  | float _ => .float
  | string _ => .string
  | array _ => .array
  | object _ => .object

instance : Inhabited Value := ⟨null⟩

end Value

namespace Fields

variable {α : Type}

def Sorted (fields : List (String × α)) : Prop :=
  fields.Pairwise fun a b => a.1 < b.1

def get? (key : String) (fields : List (String × α)) : Option α :=
  fields.lookup key

def insert (key : String) (item : α) : List (String × α) → List (String × α)
  | [] => [(key, item)]
  | (k, old) :: later =>
    if key < k then (key, item) :: (k, old) :: later
    else if key = k then (key, item) :: later
    else (k, old) :: insert key item later

def erase (key : String) (fields : List (String × α)) : List (String × α) :=
  fields.filter fun field => field.1 ≠ key

def merge (fields changes : List (String × α)) : List (String × α) :=
  changes.foldl (fun merged change => insert change.1 change.2 merged) fields

/-- The last of several fields of one key stays. -/
def ofList (pairs : List (String × α)) : List (String × α) :=
  merge [] pairs

@[simp] theorem get?_nil (key : String) : get? key ([] : List (String × α)) = none := rfl

@[simp] theorem sorted_nil : Sorted ([] : List (String × α)) := List.Pairwise.nil

theorem mem_insert {key : String} {item : α} {fields : List (String × α)} {field : String × α}
    (h : field ∈ insert key item fields) : field = (key, item) ∨ field ∈ fields := by
  induction fields with
  | nil => simpa [insert] using h
  | cons head later ih =>
    obtain ⟨k, old⟩ := head
    simp only [insert] at h
    split at h
    · simpa using h
    split at h
    · rcases List.mem_cons.1 h with h | h
      · exact .inl h
      · exact .inr (List.mem_cons_of_mem _ h)
    · rcases List.mem_cons.1 h with h | h
      · exact .inr (by simp [h])
      · exact (ih h).imp id (List.mem_cons_of_mem _)

theorem Sorted.insert {fields : List (String × α)} (h : Sorted fields) (key : String) (item : α) :
    Sorted (insert key item fields) := by
  induction fields with
  | nil => simp [Fields.insert, Sorted]
  | cons head later ih =>
    obtain ⟨k, old⟩ := head
    have ⟨least, rest⟩ := List.pairwise_cons.1 h
    simp only [Fields.insert]
    split
    · rename_i before
      refine List.pairwise_cons.2 ⟨fun field member => ?_, h⟩
      rcases List.mem_cons.1 member with rfl | member
      · exact before
      · exact String.lt_trans before (least field member)
    split
    · rename_i same
      subst same
      exact List.pairwise_cons.2 ⟨least, rest⟩
    · rename_i notBefore notSame
      refine List.pairwise_cons.2 ⟨fun field member => ?_, ih rest⟩
      rcases mem_insert member with rfl | member
      · exact Std.lt_of_le_of_ne (Std.not_lt.1 notBefore) (fun same => notSame same.symm)
      · exact least field member

theorem Sorted.merge {fields : List (String × α)} (h : Sorted fields)
    (changes : List (String × α)) : Sorted (merge fields changes) := by
  induction changes generalizing fields with
  | nil => exact h
  | cons change later ih => exact ih (h.insert change.1 change.2)

theorem sorted_ofList (pairs : List (String × α)) : Sorted (ofList pairs) :=
  sorted_nil.merge pairs

end Fields

namespace Value

/-- Zero, the empty ones, `false` and `null` do not hold. -/
def isTruthy : Value → Bool
  | null => false
  | boolean b => b
  | integer n => n != 0
  | float x => !(x == 0)
  | string s => s != ""
  | array items => !items.isEmpty
  | object fields => !fields.isEmpty

mutual

/-- Every object in the value lists its fields in key order. -/
def Canonical : Value → Prop
  | array items => CanonicalItems items
  | object fields => Fields.Sorted fields ∧ CanonicalFields fields
  | _ => True

def CanonicalItems : List Value → Prop
  | [] => True
  | item :: later => item.Canonical ∧ CanonicalItems later

def CanonicalFields : List (String × Value) → Prop
  | [] => True
  | (_, item) :: later => item.Canonical ∧ CanonicalFields later

end

end Value

end RecordPipeline
