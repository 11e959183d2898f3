import RecordPipeline.Eval
import RecordPipeline.Json.Printer
import RecordPipeline.Platform.Reference
import RecordPipeline.Proofs.Number.Parts
import RecordPipeline.Proofs.Printing.Written

/-!
Printed integers in a query. The digits of an integer are one token, which is an integer where 64 bits
hold it and a double otherwise, and a minus in front of it is an operation on it. All integers come back
but the least: its digits alone are out of range, so the sign is put to a double.
-/

namespace RecordPipeline

open Number

namespace Expr

def ofSize (size : Nat) : Expr :=
  match toInt64? size with
  | some n => integer n
  | none => float (ofDecimal false size 0)

def ofPrinted (n : Int) : Expr :=
  if n < 0 then negate (ofSize n.natAbs) else ofSize n.natAbs

theorem shows_toDigits (levels size : Nat) :
    ∃ node, Shows levels (.ofTightness 7) (ofSize size) (Nat.toDigits 10 size) node := by
  have lowers : Node.literal ⟨.integer, String.ofList (Nat.toDigits 10 size), 0⟩ =
      .ok (ofSize size) := by
    simp only [Node.literal, Node.integerLiteral, String.toList_ofList, readInt_toDigits,
      readFloat_toDigits, ofSize]
    cases toInt64? size <;> rfl
  have lexeme : Lexeme .integer (String.ofList (Nat.toDigits 10 size)).toList := by
    rw [String.toList_ofList]
    exact lexeme_toDigits size
  have simple : TokenKind.integer ∈ Grammar.Symbol.simpleAtoms := by decide
  have shows := Shows.ofToken (n := levels) simple lexeme lowers
  rw [String.toList_ofList] at shows
  exact ⟨_, shows⟩

theorem parse_toString (n : Int) : parse (toString n) = .ok (ofPrinted n) := by
  have spelled : (toString n).toList = Numeral.minus n ++ Nat.toDigits 10 n.natAbs :=
    Numeral.toList_repr n
  obtain ⟨digits, shows⟩ := shows_toDigits 0 n.natAbs
  rw [Numeral.minus] at spelled
  split at spelled
  · rename_i negative
    obtain ⟨node, signed⟩ := (shows.loosen (by decide : 6 ≤ 7)).negate
    have shown := signed.expression (m := Parser.maxNesting) (by decide)
    rw [← List.singleton_append, ← spelled] at shown
    rw [ofPrinted, if_pos negative]
    exact parse_of_shows shown
  · rename_i unsigned
    have shown := shows.expression (m := Parser.maxNesting) (by decide)
    rw [← List.nil_append (Nat.toDigits 10 n.natAbs), ← spelled] at shown
    rw [ofPrinted, if_neg unsigned]
    exact parse_of_shows shown

section Values

variable {platform : Platform} {input : Value}

theorem eval_negate {e : Expr} {v : Value} (operand : e.eval platform input = .ok v) :
    (negate e).eval platform input = v.negate := by
  rw [eval, operand]
  rfl

theorem exists_toInt_natAbs {n : Int64} (bounded : n ≠ Int64.minValue) :
    ∃ m : Int64, m.toInt = n.toInt.natAbs := by
  have least := n.le_toInt
  have most := n.toInt_lt
  have above : n.toInt ≠ Int64.minValue.toInt := fun same => bounded (Int64.toInt_inj.1 same)
  rw [Int64.toInt_minValue] at above
  obtain ⟨m, found⟩ := Option.isSome_iff_exists.1
    ((toInt64?_isSome (n := n.toInt.natAbs)).2 (by rw [minInt, maxInt]; omega))
  exact ⟨m, toInt64?_eq_some_iff.1 found⟩

theorem eval_ofPrinted {n : Int64} (bounded : n ≠ Int64.minValue) :
    (ofPrinted n.toInt).eval platform input = .ok (.integer n) := by
  obtain ⟨m, size⟩ := exists_toInt_natAbs bounded
  have operand : (ofSize n.toInt.natAbs).eval platform input = .ok (.integer m) := by
    rw [ofSize, toInt64?_eq_some_iff.2 size, eval]
  rw [ofPrinted]
  split
  · have opposite : -m.toInt = n.toInt := by omega
    rw [eval_negate operand, Value.negate, opposite, Value.ofInt_toInt]
  · have same : m = n := Int64.toInt_inj.1 (by omega)
    rw [operand, same]

theorem eval_ofPrinted_minValue :
    (ofPrinted Int64.minValue.toInt).eval platform input =
      .ok (.float (Binary64.ofInt Int64.minValue.toInt)) := by
  have large : toInt64? Int64.minValue.toInt.natAbs = none := by decide
  have operand : (ofSize Int64.minValue.toInt.natAbs).eval platform input =
      .ok (.float (ofDecimal false Int64.minValue.toInt.natAbs 0)) := by
    rw [ofSize, large, eval]
  have opposite : -ofDecimal false Int64.minValue.toInt.natAbs 0 =
      Binary64.ofInt Int64.minValue.toInt := Binary64.eq_of_toBits (by decide +kernel)
  rw [ofPrinted, if_pos (by decide), eval_negate operand, Value.negate, opposite]

end Values

/-- An integer printed as JSON, in either layout, is read as an expression whose value is the integer for
any record; only the least integer comes back as a double. -/
theorem eval_printed_integer (layout : Json.Layout) (n : Int64) :
    ∃ e, parse (Json.text layout (.integer n)) = .ok e ∧ ∀ platform input, e.eval platform input =
      .ok (if n = Int64.minValue then .float (Binary64.ofInt n.toInt) else .integer n) := by
  have printed : Json.text layout (.integer n) = toString n.toInt := by
    rw [Json.text, Json.write, String.ofList_toList]
  refine ⟨ofPrinted n.toInt, ?_, fun platform input => ?_⟩
  · rw [printed]
    exact parse_toString n.toInt
  · split
    · rename_i least
      rw [least]
      exact eval_ofPrinted_minValue
    · rename_i bounded
      exact eval_ofPrinted bounded

/-- No expression that the least integer is read as gives it back. -/
theorem eval_printed_minValue :
    Json.text .compact (.integer Int64.minValue) = "-9223372036854775808" ∧
      ¬∃ e, parse "-9223372036854775808" = .ok e ∧
        e.eval (.reference ⟨0, 0, 0⟩) .null = .ok (.integer Int64.minValue) := by
  refine ⟨by rfl, ?_⟩
  rintro ⟨e, read, value⟩
  have printed : toString Int64.minValue.toInt = "-9223372036854775808" := by rfl
  rw [← printed, parse_toString, Except.ok.injEq] at read
  rw [← read, eval_ofPrinted_minValue] at value
  cases value

end Expr

end RecordPipeline
