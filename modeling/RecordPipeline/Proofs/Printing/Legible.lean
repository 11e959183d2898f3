import RecordPipeline.Expr
import RecordPipeline.Number.Binary64
import RecordPipeline.Proofs.Grammar

/-!
Which expressions are read back from their texts. The text of an expression holds together as tightly
as the loosest operator in it, and it can stand only where the grammar expects something as tight.
Only binary operations between binary operators are put in parentheses, so everything else has to be
tight enough as it is, and the levels of nesting of the text have to be few enough.
-/

namespace RecordPipeline

open RecordPipeline.Grammar

namespace Grammar

/-- The rules of operators, the loosest first; `not` lies between conjunctions and comparisons, the
sign between products and accesses. -/
def Symbol.ofTightness : Nat → Symbol
  | 0 => .chain .disjunction
  | 1 => .chain .conjunction
  | 2 => .negation
  | 3 => .chain .comparison
  | 4 => .chain .sum
  | 5 => .chain .product
  | 6 => .signed
  | _ => .access

def Tier.tightness : Tier → Nat
  | disjunction => 0
  | conjunction => 1
  | comparison => 3
  | sum => 4
  | product => 5

theorem Symbol.ofTightness_tier (tier : Tier) :
    Symbol.ofTightness tier.tightness = .chain tier := by
  cases tier <;> rfl

theorem Symbol.ofTightness_operand (tier : Tier) :
    Symbol.ofTightness (tier.tightness + 1) = tier.operand := by
  cases tier <;> rfl

theorem Parses.loosen {n k l : Nat} {node : Node}
    (h : Parses n (.symbol (Symbol.ofTightness l)) [node]) (le : k ≤ l) :
    Parses n (.symbol (Symbol.ofTightness k)) [node] := by
  induction l with
  | zero => exact Nat.le_zero.1 le ▸ h
  | succ l ih =>
    rcases Nat.lt_or_eq_of_le le with less | rfl
    · refine ih ?_ (by omega)
      match l, h with
      | 0, h => exact parses_chain_of_operand .disjunction h
      | 1, h => exact parses_chain_of_operand .conjunction h
      | 2, h => exact parses_negation.2 (.inr h)
      | 3, h => exact parses_chain_of_operand .comparison h
      | 4, h => exact parses_chain_of_operand .sum h
      | 5, h => exact parses_chain_of_operand .product h
      | 6, h => exact parses_signed.2 (.inr h)
      | _ + 7, h => exact h
    · exact h

end Grammar

def Operator.tier : Operator → Tier
  | or => .disjunction
  | and => .conjunction
  | equal | notEqual | less | greater | lessEqual | greaterEqual | member => .comparison
  | add | subtract => .sum
  | multiply | divide | modulo => .product

namespace Expr

def tightness : Expr → Nat
  | binary op _ _ => op.tier.tightness
  | not _ => 2
  | negate _ => 6
  | _ => 7

def operandTightness (e : Expr) : Nat :=
  if e.isBinary then 7 else e.tightness

def isWord : Expr → Bool
  | bare _ | record => true
  | _ => false

mutual

/-- Every part of the expression is tight enough where it is written without parentheses, no key of
an object is a word, and every float has digits. -/
def legible : Expr → Bool
  | float x => Binary64.isFinite x
  | attr base _ => base.legible && decide (7 ≤ base.tightness)
  | index base key => base.legible && decide (7 ≤ base.tightness) && key.legible
  | call function args named =>
    function.legible && decide (7 ≤ function.tightness) && allLegible args && namedLegible named
  | binary op left right =>
    left.legible && decide (op.tier.tightness < left.operandTightness) && right.legible &&
      decide (op.tier.tightness < right.operandTightness)
  | not operand => operand.legible && decide (2 ≤ operand.tightness)
  | negate operand => operand.legible && decide (6 ≤ operand.tightness)
  | array items | tuple items => allLegible items
  | object fields => fieldsLegible fields
  | _ => true

def allLegible : List Expr → Bool
  | [] => true
  | e :: later => e.legible && allLegible later

def namedLegible : List (String × Expr) → Bool
  | [] => true
  | (_, e) :: later => e.legible && namedLegible later

def fieldsLegible : List (Expr × Expr) → Bool
  | [] => true
  | (key, value) :: later => key.legible && !key.isWord && value.legible && fieldsLegible later

end

mutual

/-- The levels of nesting that the text of an expression takes. -/
def nesting : Expr → Nat
  | attr base _ => base.nesting
  | index base key => max base.nesting (key.nesting + 1)
  | call function args named =>
    max function.nesting (max (nestingOfAll args) (nestingOfNamed named))
  | binary _ left right =>
    max (left.nesting + if left.isBinary then 1 else 0)
      (right.nesting + if right.isBinary then 1 else 0)
  | not operand | negate operand => operand.nesting + 1
  | array items | tuple items => nestingOfAll items
  | object fields => nestingOfFields fields
  | _ => 0

def nestingOfAll : List Expr → Nat
  | [] => 0
  | e :: later => max (e.nesting + 1) (nestingOfAll later)

def nestingOfNamed : List (String × Expr) → Nat
  | [] => 0
  | (_, e) :: later => max (e.nesting + 1) (nestingOfNamed later)

def nestingOfFields : List (Expr × Expr) → Nat
  | [] => 0
  | (key, value) :: later =>
    max (key.nesting + 1) (max (value.nesting + 1) (nestingOfFields later))

end

end Expr

end RecordPipeline
