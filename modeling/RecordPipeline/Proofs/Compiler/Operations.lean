import Mathlib
import RecordPipeline.Proofs.Compiler.Inference

/-!
The stages of operations. An operator expression names no stage, so the compiler wraps it in `map`
or `filter`, and fails only as lowering it fails. There is one exception: behind a name and an
operator, parentheses look like the call of a stage of that name, which is then refused at the
operator.
-/

namespace RecordPipeline

open RecordPipeline.Compiler RecordPipeline.Grammar RecordPipeline.Parser

theorem eq_ok_of_toOption {ε α : Type} {x : Except ε α} {a : α} (h : x.toOption = some a) :
    x = .ok a := by
  cases x with
  | error e => cases h
  | ok b =>
    cases h
    rfl

theorem eq_error_of_toOption {ε α : Type} {x : Except ε α} (h : x.toOption = none) :
    ∃ e, x = .error e := by
  cases x with
  | error e => exact ⟨e, rfl⟩
  | ok b => cases h

section Inferred

variable {n : Nat} {node : Node}

/-- The stage of that name with the expression as its only parameter, or the error that lowering the
expression gives. -/
def Infers (name : String) (e : Except Fault Expr) (result : Except CompileError Stage) : Prop :=
  match e with
  | .ok value => result = .ok (.call ⟨name, ⟨.tuple [value], []⟩, []⟩)
  | .error _ => ∃ err, result = .error (.malformed err)

theorem joinable_of_expression (h : Parses n (.symbol .expression) [node])
    (spelled : node.Spelled) : Joinable node.argumentTrailer.tokens := by
  have linked := ((parses_argumentTrailer h).named (by rfl)).linked
  exact ⟨spelled_argumentTrailer spelled, by simpa using linked⟩

theorem lowerCall_argument (h : Parses n (.symbol .expression) [node]) (last : Node) :
    Node.lowerCall [.branch .arguments [node], last] =
      node.lower.map fun value => ([value], []) := by
  rw [Node.lowerCall, Node.lowerArguments_positional (isPositional_of_expression h),
    if_neg (noComma_of_expression h)]
  cases node.lower <;> rfl

theorem invocationOf_argument (le : n ≤ maxNesting) (h : Parses n (.symbol .expression) [node])
    (spelled : node.Spelled) :
    (invocationOf (parametersOf node.argumentTrailer.tokenTree)).toOption =
      node.lower.toOption.map fun value => ⟨.tuple [value], []⟩ := by
  obtain ⟨opening, parts, same, -, filled, texts, -⟩ :=
    parametersOf_call le (parses_argumentTrailer h) (joinable_of_expression h spelled)
  cases same
  have given : (parametersOf node.argumentTrailer.tokenTree).isEmpty = false := by
    simpa using filled
  rw [lowerCall_argument h, toOption_map] at texts
  rw [invocationOf, given, if_neg (by decide), toOption_map]
  have split := congrArg (Option.map fun (parts : List Expr × List (String × Expr)) =>
    (⟨.tuple parts.1, parts.2⟩ : Invocation)) texts
  rw [Option.map_map, Option.map_map] at split
  exact split

theorem stageCall_argument (le : n ≤ maxNesting) (h : Parses n (.symbol .expression) [node])
    (spelled : node.Spelled) (name : String) :
    Infers name node.lower
      ((stageCall [.leaf name, node.argumentTrailer.tokenTree]).map .call) := by
  have called : stageCall [.leaf name, node.argumentTrailer.tokenTree] =
      (malformed (invocationOf (parametersOf node.argumentTrailer.tokenTree))).map
        fun invocation => ⟨name, invocation, []⟩ := by
    rw [stageCall, TokenTree.leafText?_leaf]
    have head : node.argumentTrailer.tokenTree.head? = some "(" := by
      rw [tokenTree_argumentTrailer]
      rfl
    simp only [List.foldlM_cons, List.foldlM_nil, Draft.add, if_pos head, Draft.addCall]
    cases invocationOf (parametersOf node.argumentTrailer.tokenTree) <;> rfl
  have given := invocationOf_argument le h spelled
  rw [called]
  cases lowered : node.lower with
  | ok value =>
    rw [lowered] at given
    rw [eq_ok_of_toOption given]
    rfl
  | error fault =>
    rw [lowered] at given
    obtain ⟨err, read⟩ := eq_error_of_toOption given
    rw [read]
    exact ⟨err, rfl⟩

theorem shape_of_operation (h : Parses n (.symbol .expression) [node])
    (operation : node.isOperation = true) :
    ∃ rule first second more, node = .branch rule (first :: second :: more) ∧ rule ≠ .access := by
  cases shape_of_expression h with
  | token | atom | trailed => simp [Node.isOperation] at operation
  | before other => exact ⟨_, _, _, _, rfl, other⟩
  | between other => exact ⟨_, _, _, _, rfl, other⟩

theorem asStageCall_operation (h : Parses n (.symbol .expression) [node]) (spelled : node.Spelled)
    (operation : node.isOperation = true) :
    stageReference? node.tokenTree = none ∧
      asStageCall node.tokenTree =
        if node.mistakable then node.tokenTree else wrap node.impliedStage node.tokenTree := by
  obtain ⟨rule, first, second, more, rfl, other⟩ := shape_of_operation h operation
  refine ⟨stageReference?_expression h spelled (Node.namesStage_of_two ..), ?_⟩
  rw [asStageCall_expression h spelled]
  simp [Node.isAtom, Node.callsStage, other]

theorem stageOf_operation (le : n ≤ maxNesting) (h : Parses n (.symbol .expression) [node])
    (spelled : node.Spelled) (operation : node.isOperation = true)
    (clear : node.mistakable = false) :
    Infers node.impliedStage node.lower (stageOf node.tokenTree) := by
  obtain ⟨noReference, call⟩ := asStageCall_operation h spelled operation
  rw [clear, if_neg (by decide), wrap_eq] at call
  rw [stageOf_asStageCall noReference call]
  exact stageCall_argument le h spelled node.impliedStage

theorem add_operator {symbol : Node} (operator : IsOperator symbol) (spelled : symbol.Spelled)
    (draft : Draft) : draft.add symbol.tokenTree = .error (.ambiguous symbol.joined) := by
  have paren := head?_operator_ne operator spelled Close.openParen.lexeme (by decide)
  have bracket := head?_operator_ne operator spelled Close.openBracket.lexeme (by decide)
  have point : Lexeme .dot ['.'] := ⟨rfl, '.', [], rfl, rfl⟩
  have dot := head?_operator_ne operator spelled point (by decide)
  rw [Draft.add, if_neg paren, if_neg dot, if_neg bracket, CompileError.ofTree,
    Node.flatten_tokenTree, Node.joined]

/-- The call that an operation is mistaken for has the operator where a trailer should be. -/
theorem stageOf_mistakable (h : Parses n (.symbol .expression) [node]) (spelled : node.Spelled)
    (operation : node.isOperation = true) (mistakable : node.mistakable = true) :
    ∃ first symbol later, node.children = first :: symbol :: later ∧
      stageOf node.tokenTree = .error (.ambiguous symbol.joined) := by
  obtain ⟨noReference, call⟩ := asStageCall_operation h spelled operation
  rw [if_pos mistakable] at call
  cases shape_of_expression h with
  | token | atom | trailed => simp [Node.isOperation] at operation
  | @before rule t operand other operator =>
    have noName : t.kind ≠ .name := ne_name_of_operator operator
    simp [Node.mistakable, Node.firstOperand?, other, Node.namesStage_leaf, noName] at mistakable
  | @between rule first symbol more other operand operator parts =>
    refine ⟨first, symbol, more, rfl, ?_⟩
    have named : first.namesStage = true := by
      simp only [Node.mistakable, Node.firstOperand?, other, if_false, Option.any_some,
        Bool.and_eq_true] at mistakable
      exact mistakable.1
    obtain ⟨name, leaf⟩ : ∃ name, first.tokenTree.leafText? = some name := by
      have name := isStageName_expression operand (spelled.child (by simp))
      cases leaf : first.tokenTree.leafText? with
      | some text => exact ⟨text, rfl⟩
      | none =>
        rw [leaf, named] at name
        cases name
    -- The first operand is read as the name of a stage, and the operator as what is behind it.
    rw [Node.tokenTree_of_two] at noReference call ⊢
    rw [stageOf, noReference]
    simp only [call, TokenTree.children, List.length_cons, stageCall_foldMethod]
    rw [if_neg (by omega), stageCall, leaf]
    simp only [List.foldlM_cons, add_operator operator (spelled.child (by simp))]
    rfl

end Inferred

/-- Every operation of a query becomes `map` or `filter` of what it is lowered to, and fails only as
lowering it fails, unless it can be mistaken for a call: then the compiler stops at its first
operator. -/
theorem compile_operations (query : String) (node : Node)
    (read : parseQuery (query ++ ",") = .ok node) :
    compile query = (node.expressions.mapM fun e => stageOf e.tokenTree).map Pipeline.mk ∧
      ∀ e ∈ node.expressions, e.isOperation = true →
        (e.mistakable = false → Infers e.impliedStage e.lower (stageOf e.tokenTree)) ∧
        (e.mistakable = true → ∃ first symbol later, e.children = first :: symbol :: later ∧
          stageOf e.tokenTree = .error (.ambiguous symbol.joined)) := by
  refine ⟨compile_expressions read, fun e member operation => ?_⟩
  obtain ⟨first, second, more, last, rfl, hItems, joinable⟩ := query_items read
  obtain ⟨parses, inside⟩ := itemsOf_commaList expression_single hItems joinable e member
  exact ⟨stageOf_operation (Nat.le_refl _) parses inside.lexemes operation,
    stageOf_mistakable parses inside.lexemes operation⟩

theorem compile_operations_condition :
    ∃ node condition sum, parseQuery ("x > 1, -a + b" ++ ",") = .ok node ∧
      node.expressions = [condition, sum] ∧
      Infers "filter" (.ok (.binary .greater .record (.integer 1))) (stageOf condition.tokenTree) ∧
      Infers "map" (.ok (.binary .add (.negate (.bare "a")) (.bare "b")))
        (stageOf sum.tokenTree) := by
  let name (text : String) (offset : Nat) : Node := .branch .access [.leaf ⟨.name, text, offset⟩]
  let condition : Node := .branch .comparison
    [name "x" 0, .leaf ⟨.greater, ">", 2⟩, .branch .access [.leaf ⟨.integer, "1", 4⟩]]
  let sum : Node := .branch .sum
    [.branch .signed [.leaf ⟨.minus, "-", 7⟩, name "a" 8], .leaf ⟨.plus, "+", 10⟩, name "b" 12]
  let node : Node := .branch .query [.branch .sequence
    [condition, .leaf ⟨.comma, ",", 5⟩, sum, .leaf ⟨.comma, ",", 13⟩], .leaf ⟨.endOfInput, "", 14⟩]
  have read : parseQuery ("x > 1, -a + b" ++ ",") = .ok node := by cbv
  have both : node.expressions = [condition, sum] := rfl
  have all := (compile_operations _ node read).2
  have filters := (all condition (by rw [both]; simp) rfl).1 rfl
  have maps := (all sum (by rw [both]; simp) rfl).1 rfl
  exact ⟨node, condition, sum, read, both, filters, maps⟩

set_option maxRecDepth 2000 in
theorem compile_mistakes_parens :
    (∃ node e, parseQuery "a + (b)" = .ok node ∧ node.expressions = [e] ∧ e.isOperation = true) ∧
      compile "a + (b)" = .error (.ambiguous "+") ∧
      compile "a + b" =
        .ok ⟨[.call ⟨"map", ⟨.tuple [.binary .add (.bare "a") (.bare "b")], []⟩, []⟩]⟩ ∧
      compile "(b) + a" =
        .ok ⟨[.call ⟨"map", ⟨.tuple [.binary .add (.bare "b") (.bare "a")], []⟩, []⟩]⟩ := by
  have read : parseQuery "a + (b)" = .ok (.branch .query [.branch .sequence [.branch .sum
      [.branch .access [.leaf ⟨.name, "a", 0⟩], .leaf ⟨.plus, "+", 2⟩,
        .branch .access [.branch .parens [.leaf ⟨.openParen, "(", 4⟩,
          .branch .access [.leaf ⟨.name, "b", 5⟩], .leaf ⟨.closeParen, ")", 6⟩]]]],
      .leaf ⟨.endOfInput, "", 7⟩]) := by cbv
  exact ⟨⟨_, _, read, rfl, rfl⟩, by cbv, by cbv, by cbv⟩

end RecordPipeline
