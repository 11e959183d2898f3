import RecordPipeline.Proofs.Lexing.Words
import RecordPipeline.Proofs.Nesting.Limit
import RecordPipeline.Proofs.Printing.Written

/-!
Expressions without prefix operators. Parentheses are printed around the binary operands of binary
operators alone, so where nothing else is loose an expression of any shape is read back from its
text, unless the text is nested too deeply.
-/

namespace RecordPipeline

open RecordPipeline.Grammar

namespace Expr

/-- Binary operations at any depth over literals, names, accesses and containers, with words in the
place of names. An access has no binary operation in front of it. -/
inductive Operational : Expr → Prop where
  | integer {n : Int64} (unsigned : 0 ≤ n.toInt) : Operational (integer n)
  | string (s : String) : Operational (string s)
  | boolean (b : Bool) : Operational (boolean b)
  | null : Operational null
  | record : Operational record
  | bare {s : String} (name : isIdentifier s = true) (other : s ≠ "x") : Operational (bare s)
  | attr {base : Expr} {name : String} (object : Operational base)
      (single : base.isBinary = false) (word : Text.isWord name = true) :
      Operational (attr base name)
  | index {base key : Expr} (object : Operational base) (single : base.isBinary = false)
      (place : Operational key) : Operational (index base key)
  | call {function : Expr} {args : List Expr} {named : List (String × Expr)}
      (callee : Operational function) (single : function.isBinary = false)
      (each : ∀ e ∈ args, Operational e) (names : ∀ part ∈ named, isIdentifier part.1 = true)
      (values : ∀ part ∈ named, Operational part.2) : Operational (call function args named)
  | binary (op : Operator) {left right : Expr} (first : Operational left)
      (second : Operational right) : Operational (binary op left right)
  | array {items : List Expr} (each : ∀ e ∈ items, Operational e) : Operational (array items)
  | tuple {items : List Expr} (each : ∀ e ∈ items, Operational e) : Operational (tuple items)
  | object {fields : List (Expr × Expr)} (keys : ∀ field ∈ fields, ∃ s, field.1 = string s)
      (values : ∀ field ∈ fields, Operational field.2) : Operational (object fields)

namespace Operational

variable {e : Expr}

theorem tight (h : e.Operational) (single : e.isBinary = false) : e.tightness = 7 := by
  cases h with
  | binary => cases single
  | _ => rfl

theorem operandTight (h : e.Operational) : e.operandTightness = 7 := by
  rw [operandTightness]
  split
  · rfl
  · exact h.tight (Bool.eq_false_iff.2 ‹_›)

theorem written (h : e.Operational) : e.Written := by
  induction h with
  | integer unsigned => exact .integer unsigned
  | string s => exact .string s
  | boolean b => exact .boolean b
  | null => exact .null
  | record => exact .record
  | bare name other => exact .bare (lexeme_of_isIdentifier name) other
  | attr _ _ word ih => exact .attr (ofWord_mem _) (lexeme_of_isWord word) ih
  | index _ _ _ ihBase ihKey => exact .index ihBase ihKey
  | call _ _ _ names _ ihCallee ihArgs ihValues =>
    exact .call ihCallee ihArgs (fun part member => lexeme_of_isIdentifier (names part member))
      ihValues
  | binary op _ _ ihLeft ihRight => exact .binary op ihLeft ihRight
  | array _ ih => exact .array ih
  | tuple _ ih => exact .tuple ih
  | object keys _ ih =>
    refine .object (fun field member => ?_) ih
    obtain ⟨s, same⟩ := keys field member
    exact same ▸ .string s

theorem legible (h : e.Operational) : e.legible = true := by
  induction h with
  | integer | string | boolean | null | record | bare => rfl
  | attr object single _ ih =>
    rw [Expr.legible, ih, object.tight single]
    rfl
  | index object single _ ihBase ihKey =>
    rw [Expr.legible, ihBase, ihKey, object.tight single]
    rfl
  | call callee single _ _ _ ihCallee ihArgs ihValues =>
    rw [Expr.legible, ihCallee, callee.tight single, allLegible_iff.2 ihArgs,
      namedLegible_iff.2 ihValues]
    rfl
  | binary op first second ihLeft ihRight =>
    rw [Expr.legible, ihLeft, ihRight, first.operandTight, second.operandTight]
    cases op <;> rfl
  | array _ ih | tuple _ ih =>
    rw [Expr.legible]
    exact allLegible_iff.2 ih
  | object keys _ ih =>
    rw [Expr.legible]
    refine fieldsLegible_iff.2 fun field member => ?_
    obtain ⟨s, same⟩ := keys field member
    have keyLegible : field.1.legible = true := by
      rw [same]
      rfl
    have notWord : field.1.isWord = false := by
      rw [same]
      rfl
    exact ⟨keyLegible, notWord, ih field member⟩

end Operational

theorem Written.parse_text_or_deep {e : Expr} (written : e.Written) (legible : e.legible = true) :
    parse e.text = .ok e ∨ ∃ error, parse e.text = .error error ∧ error.cause = .nestedTooDeeply := by
  obtain ⟨node, shows⟩ := (written.shown legible).within (Nat.lt_succ_self e.nesting)
  rcases parse_of_spells_or_deep shows.parses shows.spells with read | deep
  · rw [shows.lowers] at read
    cases parsed : parse e.text with
    | error fault =>
      rw [parsed] at read
      cases read
    | ok other =>
      rw [parsed] at read
      cases read
      exact .inl rfl
  · exact .inr deep

/-- Printing an operational expression is undone by reading its text, where the only failure is that
the text is nested too deeply; it does not occur below the limit on nesting. -/
theorem parse_text_of_operational (e : Expr) (h : e.Operational) :
    (parse e.text = .ok e ∨
      ∃ error, parse e.text = .error error ∧ error.message = "Expression is nested too deeply") ∧
      (e.nesting < Parser.maxNesting → parse e.text = .ok e) := by
  refine ⟨?_, h.written.parse_text h.legible⟩
  rcases h.written.parse_text_or_deep h.legible with read | ⟨error, refused, deep⟩
  · exact .inl read
  · exact .inr ⟨error, refused, congrArg Cause.message deep⟩

/-- Keyword arguments, keywords behind a dot and tuples of one item are read back with the rest. -/
theorem parse_text_of_operational_call :
    let e := binary .multiply (binary .add record (integer 1))
      (call (attr (bare "f") "not") [tuple [string "a\"b"]] [("x", object [(string "k", null)])])
    e.text = "(x + 1) * f.not((\"a\\\"b\",), x=\x7b\"k\": None\x7d)" ∧ e.Operational ∧
      e.nesting < Parser.maxNesting ∧ parse e.text = .ok e := by
  intro e
  have operational : e.Operational := by
    refine .binary _ (.binary _ .record (.integer (by decide))) (.call ?_ rfl ?_ ?_ ?_)
    · exact .attr (.bare (by decide) (by decide)) rfl (by decide)
    · intro argument member
      obtain rfl := List.mem_singleton.1 member
      refine .tuple fun item inside => ?_
      obtain rfl := List.mem_singleton.1 inside
      exact .string _
    · decide
    · intro part member
      obtain rfl := List.mem_singleton.1 member
      refine .object (fun field inside => ?_) (fun field inside => ?_)
      · obtain rfl := List.mem_singleton.1 inside
        exact ⟨_, rfl⟩
      · obtain rfl := List.mem_singleton.1 inside
        exact .null
  have shallow : e.nesting < Parser.maxNesting := by decide
  exact ⟨by decide +kernel, operational, shallow, (parse_text_of_operational e operational).2 shallow⟩

end Expr

end RecordPipeline
