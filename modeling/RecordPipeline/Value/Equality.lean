import RecordPipeline.Number.Binary64
import RecordPipeline.Value

/-!
Two equalities. The strict one keeps integers and doubles apart; the loose one lets an integer equal
a double, and an array equal another item by item. Inside objects only the strict one is used.
-/

namespace RecordPipeline.Value

mutual

def strictEq : Value → Value → Bool
  | null, null => true
  | boolean a, boolean b => a == b
  | integer a, integer b => a == b
  | float a, float b => Binary64.same a b
  | string a, string b => a == b
  | array a, array b => strictEqItems a b
  | object a, object b => strictEqFields a b
  | _, _ => false

def strictEqItems : List Value → List Value → Bool
  | [], [] => true
  | a :: as, b :: bs => strictEq a b && strictEqItems as bs
  | _, _ => false

def strictEqFields : List (String × Value) → List (String × Value) → Bool
  | [], [] => true
  | (k, a) :: as, (l, b) :: bs => k == l && strictEq a b && strictEqFields as bs
  | _, _ => false

end

mutual

def looseEq : Value → Value → Bool
  | integer a, float b => Binary64.same (Binary64.ofInt a.toInt) b
  | float a, integer b => Binary64.same a (Binary64.ofInt b.toInt)
  | array a, array b => looseEqItems a b
  | a, b => strictEq a b

def looseEqItems : List Value → List Value → Bool
  | [], [] => true
  | a :: as, b :: bs => looseEq a b && looseEqItems as bs
  | _, _ => false

end

@[simp] theorem looseEq_array (a b : List Value) :
    looseEq (array a) (array b) = looseEqItems a b := by
  simp [looseEq]

@[simp] theorem looseEqItems_cons (a b : Value) (as bs : List Value) :
    looseEqItems (a :: as) (b :: bs) = (looseEq a b && looseEqItems as bs) := by
  simp [looseEqItems]

end RecordPipeline.Value
