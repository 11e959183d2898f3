import RecordPipeline.Proofs.Grammar.Lowering
import RecordPipeline.Proofs.Grammar.Soundness
import RecordPipeline.Proofs.Printing.Legible
import RecordPipeline.Proofs.Printing.Quoting

/-!
Trees of printed lists. The texts of the parts with a comma and a blank between them spell the trees
of the parts with their commas, and lowering such a list lowers its parts in their order.
-/

namespace RecordPipeline

open RecordPipeline.Grammar

def symbolToken (kind : TokenKind) (c : Char) : Token :=
  ⟨kind, String.ofList [c], 0⟩

inductive Close : TokenKind → Char → Prop where
  | openParen : Close .openParen '('
  | closeParen : Close .closeParen ')'
  | openBracket : Close .openBracket '['
  | closeBracket : Close .closeBracket ']'
  | openBrace : Close .openBrace '\x7b'
  | closeBrace : Close .closeBrace '\x7d'
  | colon : Close .colon ':'

namespace Close

variable {kind : TokenKind} {c : Char}

theorem tight (close : Close kind c) : isTight c = true ∧ c ≠ '.' := by
  cases close <;> exact ⟨rfl, by decide⟩

theorem lexeme (close : Close kind c) : Lexeme kind [c] := by
  cases close <;> exact ⟨rfl, _, [], rfl, rfl⟩

theorem spells (close : Close kind c) {cs : List Char} {ts : List Token} (later : Spells cs ts) :
    Spells (c :: cs) (symbolToken kind c :: ts) := by
  have ends : kind.endsBefore cs = true := by
    cases close <;> rfl
  have spelled := Spells.token (t := symbolToken kind c)
    (by simpa [symbolToken] using close.lexeme) ends later
  simpa [symbolToken] using spelled

theorem spells_behind (close : Close kind c) {cs ds : List Char} {ts us : List Token}
    (front : Spells cs ts) (back : Spells ds us) :
    Spells (cs ++ c :: ds) (ts ++ symbolToken kind c :: us) :=
  front.append (breaks_tight close.tight.1 fun same => absurd same close.tight.2)
    (close.spells back)

end Close

def commaNodes : List (List Node) → List Node
  | [] => []
  | first :: later => first ++ behindCommas later

/-- Trees of a form, and a text that spells them. -/
structure Part (n : Nat) (f : Form) (text : String) (nodes : List Node) : Prop where
  parses : Parses n f nodes
  spells : Spells text.toList (Node.tokensOf nodes)

section Pairs

variable {α β : Type} {n : Nat} {f : Form}

theorem exists_pairs {P : α → β → Prop} {xs : List α} (each : ∀ x ∈ xs, ∃ y, P x y) :
    ∃ pairs : List (α × β), pairs.map Prod.fst = xs ∧ ∀ pair ∈ pairs, P pair.1 pair.2 := by
  induction xs with
  | nil => exact ⟨[], rfl, by simp⟩
  | cons x xs ih =>
    obtain ⟨y, first⟩ := each x (by simp)
    obtain ⟨pairs, same, all⟩ := ih fun z member => each z (List.mem_cons_of_mem x member)
    refine ⟨(x, y) :: pairs, by simp [same], fun pair member => ?_⟩
    rcases List.mem_cons.1 member with rfl | member
    · exact first
    · exact all pair member

theorem spells_commaJoin (text : α → String) (nodes : β → List Node) {pairs : List (α × β)}
    (all : ∀ pair ∈ pairs, Part n f (text pair.1) (nodes pair.2)) :
    Spells (Expr.commaJoin ((pairs.map Prod.fst).map text)).toList
      (Node.tokensOf (commaNodes (pairs.map fun pair => nodes pair.2))) := by
  match pairs, all with
  | [], _ => exact .done
  | [pair], all =>
    have only := (all pair (by simp)).spells
    rw [List.map_singleton, List.map_singleton, Expr.commaJoin, String.intercalate_singleton]
    simpa [commaNodes] using only
  | pair :: next :: later, all =>
    have first := (all pair (by simp)).spells
    have rest := spells_commaJoin text nodes fun other member =>
      all other (List.mem_cons_of_mem pair member)
    have joined := first.append_comma (.blank (c := ' ') rfl rest)
    simpa [Expr.commaJoin, String.intercalate_cons_cons, commaNodes] using joined

theorem parses_commaNodes (text : α → String) (nodes : β → List Node) {pairs : List (α × β)}
    (filled : pairs ≠ []) (all : ∀ pair ∈ pairs, Part n f (text pair.1) (nodes pair.2)) :
    Parses n (Form.commaList f) (commaNodes (pairs.map fun pair => nodes pair.2)) := by
  cases pairs with
  | nil => exact absurd rfl filled
  | cons pair later =>
    have behind : ∀ part ∈ later.map fun pair => nodes pair.2, Parses n f part := by
      intro part member
      obtain ⟨other, inside, rfl⟩ := List.mem_map.1 member
      exact (all other (List.mem_cons_of_mem pair inside)).parses
    exact parses_commaList.2 ⟨nodes pair.2, behindCommas _, [], (all pair (by simp)).parses,
      parses_behindCommas behind, .inl rfl, by simp [commaNodes]⟩

end Pairs

namespace Node

theorem lowerItems_cons {node : Node} {e : Expr} (lowers : node.lower = .ok e)
    (noComma : node.kind? ≠ some .comma) (later : List Node) :
    lowerItems (node :: later) = (lowerItems later).map (e :: ·) := by
  rw [lowerItems, if_neg noComma, lowers]
  cases lowerItems later <;> rfl

theorem lowerItems_comma (later : List Node) :
    lowerItems (.leaf commaToken :: later) = lowerItems later := by
  rw [lowerItems]
  exact if_pos rfl

theorem lowerItems_behindCommas {pairs : List (Expr × Node)}
    (all : ∀ pair ∈ pairs, pair.2.lower = .ok pair.1 ∧ pair.2.kind? ≠ some .comma) :
    lowerItems (behindCommas (pairs.map fun pair => [pair.2])) = .ok (pairs.map Prod.fst) := by
  induction pairs with
  | nil => simp [lowerItems]
  | cons pair later ih =>
    obtain ⟨lowers, noComma⟩ := all pair (by simp)
    rw [List.map_cons, behindCommas_cons, List.singleton_append, lowerItems_comma,
      lowerItems_cons lowers noComma,
      ih fun other member => all other (List.mem_cons_of_mem pair member)]
    rfl

theorem lowerItems_commaNodes {pairs : List (Expr × Node)}
    (all : ∀ pair ∈ pairs, pair.2.lower = .ok pair.1 ∧ pair.2.kind? ≠ some .comma) :
    lowerItems (commaNodes (pairs.map fun pair => [pair.2])) = .ok (pairs.map Prod.fst) := by
  cases pairs with
  | nil => simp [commaNodes, lowerItems]
  | cons pair later =>
    obtain ⟨lowers, noComma⟩ := all pair (by simp)
    rw [List.map_cons, commaNodes, List.singleton_append, lowerItems_cons lowers noComma,
      lowerItems_behindCommas fun other member => all other (List.mem_cons_of_mem pair member)]
    rfl

theorem lowerArguments_commaNodes {pairs : List (Argument × Node)}
    (all : ∀ pair ∈ pairs, lowerArguments [pair.2] = .ok [pair.1]) :
    lowerArguments (commaNodes (pairs.map fun pair => [pair.2])) = .ok (pairs.map Prod.fst) := by
  have each : lowerArguments (pairs.map Prod.snd) = .ok (pairs.map Prod.fst) := by
    induction pairs with
    | nil => simp [lowerArguments]
    | cons pair later ih =>
      rw [List.map_cons, lowerArguments_cons, all pair (by simp),
        ih fun other member => all other (List.mem_cons_of_mem pair member)]
      rfl
  cases pairs with
  | nil => exact each
  | cons pair later =>
    have singles : (later.map fun pair => [pair.2]) = (later.map Prod.snd).map List.singleton := by
      simp [List.singleton]
    rw [List.map_cons, commaNodes, List.singleton_append, lowerArguments_cons, singles,
      lowerArguments_behindCommas, ← lowerArguments_cons]
    exact each

def LowersField (field : Expr × Expr) (nodes : List Node) : Prop :=
  ∃ key colon value, nodes = [key, colon, value] ∧ key.bareName? = none ∧
    key.lower = .ok field.1 ∧ value.lower = .ok field.2

theorem lowerFields_commaNodes {pairs : List ((Expr × Expr) × List Node)}
    (all : ∀ pair ∈ pairs, LowersField pair.1 pair.2) :
    lowerFields (commaNodes (pairs.map Prod.snd)) = .ok (pairs.map Prod.fst) := by
  match pairs, all with
  | [], _ => simp [commaNodes, lowerFields]
  | [pair], all =>
    obtain ⟨key, colon, value, same, noName, lowersKey, lowersValue⟩ := all pair (by simp)
    rw [List.map_singleton, commaNodes, same, behindCommas_nil, List.append_nil, lowerFields_last,
      lowerKey, noName]
    simp only [lowersKey, lowersValue]
    rfl
  | pair :: next :: later, all =>
    obtain ⟨key, colon, value, same, noName, lowersKey, lowersValue⟩ := all pair (by simp)
    have rest := lowerFields_commaNodes fun other member =>
      all other (List.mem_cons_of_mem pair member)
    rw [List.map_cons, commaNodes] at rest
    rw [List.map_cons, commaNodes, same, List.map_cons, behindCommas_cons, List.cons_append,
      List.cons_append, List.singleton_append, lowerFields_more, lowerKey, noName]
    simp only [lowersKey, lowersValue, rest]
    rfl

end Node

end RecordPipeline
