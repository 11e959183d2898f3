import RecordPipeline.Proofs.Grammar.Respelling
import RecordPipeline.Proofs.Number.Literals
import RecordPipeline.Proofs.Printing.Containers

/-!
Expressions that can be written: their numbers have no sign and their names are words. The text of
one that is legible is the text of a tree that is lowered to it, so it is read back if it is not
nested too deeply. A string constant needs no such condition.
-/

namespace RecordPipeline

open RecordPipeline.Grammar

namespace Expr

/-- What the text of an expression needs to be one: the sign of a number is an operation, and a name
is a token. -/
inductive Written : Expr → Prop where
  | integer {n : Int64} (unsigned : 0 ≤ n.toInt) : Written (integer n)
  | float {bits : Nat} (bounded : bits ≤ Binary64.infinityBits) :
      Written (float (Binary64.ofMagnitude false bits))
  | string (s : String) : Written (string s)
  | boolean (b : Bool) : Written (boolean b)
  | null : Written null
  | record : Written record
  | bare {s : String} (name : Lexeme .name s.toList) (other : s ≠ "x") : Written (bare s)
  | attr {base : Expr} {kind : TokenKind} {name : String} (word : kind ∈ Symbol.words)
      (lexeme : Lexeme kind name.toList) (object : Written base) : Written (attr base name)
  | index {base key : Expr} (object : Written base) (place : Written key) : Written (index base key)
  | call {function : Expr} {args : List Expr} {named : List (String × Expr)}
      (callee : Written function) (each : ∀ e ∈ args, Written e)
      (names : ∀ part ∈ named, Lexeme .name part.1.toList)
      (values : ∀ part ∈ named, Written part.2) : Written (call function args named)
  | binary (op : Operator) {left right : Expr} (first : Written left) (second : Written right) :
      Written (binary op left right)
  | not {operand : Expr} (inner : Written operand) : Written (not operand)
  | negate {operand : Expr} (inner : Written operand) : Written (negate operand)
  | array {items : List Expr} (each : ∀ e ∈ items, Written e) : Written (array items)
  | tuple {items : List Expr} (each : ∀ e ∈ items, Written e) : Written (tuple items)
  | object {fields : List (Expr × Expr)} (keys : ∀ field ∈ fields, Written field.1)
      (values : ∀ field ∈ fields, Written field.2) : Written (object fields)

theorem allLegible_iff {items : List Expr} :
    allLegible items = true ↔ ∀ e ∈ items, e.legible = true := by
  induction items with
  | nil => simp [allLegible]
  | cons e later ih => simp [allLegible, ih]

theorem namedLegible_iff {named : List (String × Expr)} :
    namedLegible named = true ↔ ∀ part ∈ named, part.2.legible = true := by
  induction named with
  | nil => simp [namedLegible]
  | cons part later ih => simp [namedLegible, ih]

theorem fieldsLegible_iff {fields : List (Expr × Expr)} :
    fieldsLegible fields = true ↔
      ∀ field ∈ fields, field.1.legible = true ∧ field.1.isWord = false ∧
        field.2.legible = true := by
  induction fields with
  | nil => simp [fieldsLegible]
  | cons field later ih => simp [fieldsLegible, ih, and_assoc]

theorem nesting_lt_all {items : List Expr} {e : Expr} (member : e ∈ items) :
    e.nesting < nestingOfAll items := by
  induction items with
  | nil => cases member
  | cons first later ih =>
    rw [nestingOfAll]
    rcases List.mem_cons.1 member with rfl | member
    · omega
    · exact Nat.lt_of_lt_of_le (ih member) (Nat.le_max_right _ _)

theorem nesting_lt_named {named : List (String × Expr)} {part : String × Expr}
    (member : part ∈ named) : part.2.nesting < nestingOfNamed named := by
  induction named with
  | nil => cases member
  | cons first later ih =>
    rw [nestingOfNamed]
    rcases List.mem_cons.1 member with rfl | member
    · omega
    · exact Nat.lt_of_lt_of_le (ih member) (Nat.le_max_right _ _)

theorem nesting_lt_fields {fields : List (Expr × Expr)} {field : Expr × Expr}
    (member : field ∈ fields) :
    field.1.nesting < nestingOfFields fields ∧ field.2.nesting < nestingOfFields fields := by
  induction fields with
  | nil => cases member
  | cons first later ih =>
    rw [nestingOfFields]
    rcases List.mem_cons.1 member with rfl | member
    · omega
    · have := ih member
      omega

def Shown (e : Expr) : Prop :=
  ∃ node, Shows e.nesting (.ofTightness e.tightness) e e.text.toList node

theorem Shown.within {e : Expr} (shown : e.Shown) {n : Nat} (less : e.nesting < n) :
    ∃ node, Shows n .expression e e.text.toList node := by
  obtain ⟨node, shows⟩ := shown
  exact ⟨node, shows.expression less⟩

theorem Shown.access {e : Expr} (shown : e.Shown) (tight : 7 ≤ e.tightness) {n : Nat}
    (le : e.nesting ≤ n) : ∃ node, Shows n .access e e.text.toList node := by
  obtain ⟨node, shows⟩ := shown
  exact ⟨node, (shows.loosen tight).mono le⟩

theorem shown_token {e : Expr} (kind : TokenKind) (simple : kind ∈ Symbol.simpleAtoms)
    (lexeme : Lexeme kind e.text.toList) (lowers : Node.literal ⟨kind, e.text, 0⟩ = .ok e)
    (atom : e.tightness = 7) (flat : e.nesting = 0) : e.Shown := by
  have shows := Shows.ofToken (n := 0) (t := ⟨kind, e.text, 0⟩) simple lexeme lowers
  rw [Shown, atom, flat]
  exact ⟨_, shows⟩

theorem shown_binary {op : Operator} {left right : Expr} (first : left.Shown)
    (second : right.Shown) (tightLeft : op.tier.tightness < left.operandTightness)
    (tightRight : op.tier.tightness < right.operandTightness) :
    (binary op left right).Shown := by
  obtain ⟨leftNode, showsLeft⟩ := first
  obtain ⟨rightNode, showsRight⟩ := second
  obtain ⟨leftNode, showsLeft⟩ := showsLeft.operand
  obtain ⟨rightNode, showsRight⟩ := showsRight.operand
  obtain ⟨node, shows⟩ := Shows.binary
    ((showsLeft.loosen tightLeft).mono (Nat.le_max_left _ _))
    ((showsRight.loosen tightRight).mono (Nat.le_max_right _ _))
  exact ⟨node, by simpa [text, nesting, tightness] using shows⟩

theorem shown_call {function : Expr} {args : List Expr} {named : List (String × Expr)}
    (callee : function.Shown) (tight : 7 ≤ function.tightness) (each : ∀ e ∈ args, e.Shown)
    (names : ∀ part ∈ named, Lexeme .name part.1.toList) (values : ∀ part ∈ named, part.2.Shown) :
    (call function args named).Shown := by
  obtain ⟨base, showsBase⟩ := callee.access tight (n := (call function args named).nesting)
    (by rw [nesting]; exact Nat.le_max_left _ _)
  have arguments : ∀ a ∈ Argument.inOrder args named,
      ∃ node, ShowsArgument (call function args named).nesting a node := by
    intro a member
    rw [nesting]
    rcases List.mem_append.1 member with positional | keyword
    · obtain ⟨e, inside, rfl⟩ := List.mem_map.1 positional
      have less := nesting_lt_all inside
      obtain ⟨node, shows⟩ := (each e inside).within (n := max function.nesting
        (max (nestingOfAll args) (nestingOfNamed named))) (by omega)
      exact ⟨node, .positional shows⟩
    · obtain ⟨part, inside, rfl⟩ := List.mem_map.1 keyword
      have less := nesting_lt_named inside
      obtain ⟨node, shows⟩ := (values part inside).within (n := max function.nesting
        (max (nestingOfAll args) (nestingOfNamed named))) (by omega)
      exact ShowsArgument.named shows (names part inside)
  obtain ⟨node, shows⟩ := showsBase.call arguments
  exact ⟨node, by simpa [text, tightness, Symbol.ofTightness] using shows⟩

/-- An expression that can be written and is legible is shown by a tree of its text. -/
theorem Written.shown {e : Expr} (written : e.Written) (legible : e.legible = true) : e.Shown := by
  induction written with
  | integer unsigned =>
    refine shown_token .integer (by decide) ?_ ?_ rfl rfl
    · rw [text]
      exact lexeme_toString unsigned
    · rw [text, Node.literal, Node.integerLiteral, readInt_toString unsigned]
  | @float bits bounded =>
    have finite : bits < Binary64.infinityBits := by
      rw [Expr.legible] at legible
      simpa [Binary64.isFinite, Binary64.magnitude_ofMagnitude bounded] using legible
    refine shown_token .float (by decide) ?_ ?_ rfl rfl
    · rw [text]
      exact Binary64.lexeme_literalText finite
    · rw [text, Node.literal, Node.floatLiteral, Binary64.readFloat_literalText finite]
  | string s =>
    refine shown_token .string (by decide) ?_ ?_ rfl rfl
    · rw [text]
      exact lexeme_quote s
    · rw [text, Node.literal, unescape_quote]
  | boolean b =>
    cases b with
    | false =>
      exact shown_token .falseWord (by decide) ⟨rfl, 'F', _, rfl, rfl⟩ rfl rfl rfl
    | true =>
      exact shown_token .trueWord (by decide) ⟨rfl, 'T', _, rfl, rfl⟩ rfl rfl rfl
  | null =>
    exact shown_token .nullWord (by decide) ⟨rfl, 'N', _, rfl, rfl⟩ rfl rfl rfl
  | record =>
    exact shown_token .name (by decide) ⟨rfl, 'x', _, rfl, rfl⟩ rfl rfl rfl
  | bare name other =>
    refine shown_token .name (by decide) ?_ ?_ rfl rfl
    · rw [text]
      exact name
    · rw [text, Node.literal]
      exact congrArg Except.ok (if_neg other)
  | attr word lexeme _ ih =>
    rw [Expr.legible, Bool.and_eq_true, decide_eq_true_iff] at legible
    obtain ⟨base, showsBase⟩ := (ih legible.1).access legible.2 (Nat.le_refl _)
    obtain ⟨node, shows⟩ := showsBase.attr word lexeme
    exact ⟨node, by simpa [text, nesting, tightness, Symbol.ofTightness] using shows⟩
  | @index base key _ _ ihBase ihKey =>
    simp only [Expr.legible, Bool.and_eq_true, decide_eq_true_iff] at legible
    obtain ⟨⟨legibleBase, tight⟩, legibleKey⟩ := legible
    obtain ⟨baseNode, showsBase⟩ := (ihBase legibleBase).access tight
      (Nat.le_max_left base.nesting (key.nesting + 1))
    obtain ⟨keyNode, showsKey⟩ := (ihKey legibleKey).within
      (Nat.le_max_right base.nesting (key.nesting + 1))
    obtain ⟨node, shows⟩ := showsBase.index showsKey
    exact ⟨node, by simpa [text, nesting, tightness, Symbol.ofTightness] using shows⟩
  | call _ _ names _ ihCallee ihArgs ihValues =>
    simp only [Expr.legible, Bool.and_eq_true, decide_eq_true_iff, allLegible_iff,
      namedLegible_iff] at legible
    obtain ⟨⟨⟨legibleCallee, tight⟩, legibleArgs⟩, legibleNamed⟩ := legible
    exact shown_call (ihCallee legibleCallee) tight
      (fun e member => ihArgs e member (legibleArgs e member)) names
      (fun part member => ihValues part member (legibleNamed part member))
  | binary op _ _ ihLeft ihRight =>
    simp only [Expr.legible, Bool.and_eq_true, decide_eq_true_iff] at legible
    obtain ⟨⟨⟨legibleLeft, tightLeft⟩, legibleRight⟩, tightRight⟩ := legible
    exact shown_binary (ihLeft legibleLeft) (ihRight legibleRight) tightLeft tightRight
  | not _ ih =>
    rw [Expr.legible, Bool.and_eq_true, decide_eq_true_iff] at legible
    obtain ⟨operand, showsOperand⟩ := ih legible.1
    obtain ⟨node, shows⟩ := (showsOperand.loosen legible.2).not
    exact ⟨node, by simpa [text, nesting, tightness] using shows⟩
  | negate _ ih =>
    rw [Expr.legible, Bool.and_eq_true, decide_eq_true_iff] at legible
    obtain ⟨operand, showsOperand⟩ := ih legible.1
    obtain ⟨node, shows⟩ := (showsOperand.loosen legible.2).negate
    exact ⟨node, by simpa [text, nesting, tightness] using shows⟩
  | array _ ih =>
    rw [Expr.legible, allLegible_iff] at legible
    obtain ⟨node, shows⟩ := Shows.array fun e member =>
      (ih e member (legible e member)).within (nesting_lt_all member)
    exact ⟨node, by simpa [text, nesting, tightness, Symbol.ofTightness] using shows⟩
  | tuple _ ih =>
    rw [Expr.legible, allLegible_iff] at legible
    obtain ⟨node, shows⟩ := Shows.tuple fun e member =>
      (ih e member (legible e member)).within (nesting_lt_all member)
    exact ⟨node, by simpa [nesting, tightness, Symbol.ofTightness] using shows⟩
  | object _ _ ihKeys ihValues =>
    rw [Expr.legible, fieldsLegible_iff] at legible
    obtain ⟨node, shows⟩ := Shows.object fun field member => by
      obtain ⟨legibleKey, noWord, legibleValue⟩ := legible field member
      obtain ⟨lessKey, lessValue⟩ := nesting_lt_fields member
      obtain ⟨keyNode, showsKey⟩ := (ihKeys field member legibleKey).within lessKey
      obtain ⟨valueNode, showsValue⟩ := (ihValues field member legibleValue).within lessValue
      exact Shows.field showsKey noWord showsValue
    exact ⟨node, by simpa [text, nesting, tightness, Symbol.ofTightness] using shows⟩

theorem parse_of_shows {source : String} {e : Expr} {node : Node}
    (shows : Shows Parser.maxNesting .expression e source.toList node) : parse source = .ok e := by
  have read := parse_of_spells shows.parses shows.spells
  rw [shows.lowers] at read
  cases parsed : parse source with
  | error fault =>
    rw [parsed] at read
    cases read
  | ok other =>
    rw [parsed] at read
    cases read
    rfl

theorem Written.parse_text {e : Expr} (written : e.Written) (legible : e.legible = true)
    (shallow : e.nesting < Parser.maxNesting) : parse e.text = .ok e := by
  obtain ⟨node, shows⟩ := (written.shown legible).within shallow
  exact parse_of_shows shows

/-- A string constant, whatever its characters, is written as one string token, which stands for the
string and is read back as the constant. -/
theorem parse_text_string (s : String) :
    tokenize (string s).text =
        .ok [⟨.string, (string s).text, 0⟩, ⟨.endOfInput, "", (string s).text.length⟩] ∧
      unescape (string s).text = s ∧ parse (string s).text = .ok (string s) := by
  have written : (string s).text = quote s := by rw [text]
  have shallow : (string s).nesting < Parser.maxNesting := by
    simp [nesting, Parser.maxNesting]
  refine ⟨?_, ?_, (Written.string s).parse_text rfl shallow⟩
  · rw [written]
    exact tokenize_quote s
  · rw [written]
    exact unescape_quote s

end Expr

end RecordPipeline
