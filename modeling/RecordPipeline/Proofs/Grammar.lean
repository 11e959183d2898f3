import RecordPipeline.SyntaxTree.Parser

/-!
The grammar of the query language as data, and what it derives. A form is the right side of a rule;
`deeper` goes one level of nesting down, and `branch` and `collapse` only say which tree is made of
the parts. `Derives` gives the token lists of a form within a number of levels, `Parses` the trees,
and the token lists are those that the trees spell.
-/

namespace RecordPipeline.Grammar

inductive Tier where
  | disjunction | conjunction | comparison | sum | product
deriving DecidableEq, Repr

inductive Symbol where
  | query | expressions | expression
  | chain (tier : Tier)
  | negation | signed | access | trailer | arguments | argument | attributeName | atom | fields
deriving DecidableEq, Repr

inductive Form where
  | one (kinds : List TokenKind)
  | symbol (s : Symbol)
  | both (first second : Form)
  | either (first second : Form)
  | optional (f : Form)
  | many (f : Form)
  | deeper (f : Form)
  | branch (rule : Rule) (f : Form)
  | collapse (rule : Rule) (f : Form)

namespace Tier

def rule : Tier → Rule
  | disjunction => .disjunction
  | conjunction => .conjunction
  | comparison => .comparison
  | sum => .sum
  | product => .product

def operand : Tier → Symbol
  | disjunction => .chain .conjunction
  | conjunction => .negation
  | comparison => .chain .sum
  | sum => .chain .product
  | product => .signed

def kinds : Tier → List TokenKind
  | disjunction => [.orWord]
  | conjunction => [.andWord]
  | comparison => [.equal, .notEqual, .less, .greater, .lessEqual, .greaterEqual, .inWord]
  | sum => [.plus, .minus]
  | product => [.star, .slash, .percent]

def operator : Tier → Form
  | comparison =>
    .either (.one comparison.kinds) (.branch .notIn (.both (.one [.notWord]) (.one [.inWord])))
  | tier => .one tier.kinds

end Tier

namespace Form

/-- `f (',' f)* [',']` -/
def commaList (f : Form) : Form :=
  .both f (.both (.many (.both (.one [.comma]) f)) (.optional (.one [.comma])))

def field : Form :=
  .both (.symbol .expression) (.both (.one [.colon]) (.symbol .expression))

/-- What stands between parentheses or brackets. -/
def content : Form :=
  .collapse .sequence (.symbol .expressions)

def enclosed (rule : Rule) (opening closing : TokenKind) (content : Form) : Form :=
  .branch rule (.both (.one [opening]) (.both (.optional content) (.one [closing])))

end Form

namespace Symbol

def simpleAtoms : List TokenKind :=
  [.integer, .float, .string, .trueWord, .falseWord, .nullWord, .name]

def words : List TokenKind :=
  [.name, .andWord, .orWord, .notWord, .inWord, .trueWord, .falseWord, .nullWord]

open Form in
@[grind =]
def rule : Symbol → Form
  | query =>
    .branch .query (.both (.branch .sequence (.symbol .expressions)) (.one [.endOfInput]))
  | expressions => commaList (.symbol .expression)
  | expression => .deeper (.symbol (.chain .disjunction))
  | chain tier =>
    .collapse tier.rule
      (.both (.symbol tier.operand) (.many (.both tier.operator (.symbol tier.operand))))
  | negation =>
    .either (.branch .negation (.both (.one [.notWord]) (.deeper (.symbol .negation))))
      (.symbol (.chain .comparison))
  | signed =>
    .either (.branch .signed (.both (.one [.minus, .plus]) (.deeper (.symbol .signed))))
      (.symbol .access)
  | access => .branch .access (.both (.symbol .atom) (.many (.symbol .trailer)))
  | trailer =>
    .either (enclosed .trailer .openParen .closeParen (.symbol .arguments))
      (.either
        (.branch .trailer
          (.both (.one [.openBracket]) (.both (.symbol .expression) (.one [.closeBracket]))))
        (.branch .trailer (.both (.one [.dot]) (.symbol .attributeName))))
  | arguments => .branch .arguments (commaList (.symbol .argument))
  | argument =>
    .either (.symbol .expression)
      (.branch .binding
        (.both (.branch .access (.one [.name])) (.both (.one [.assign]) (.symbol .expression))))
  | attributeName => .one words
  | atom =>
    .either (.one simpleAtoms)
      (.either (.branch .implicitField (.both (.one [.dot]) (.symbol .attributeName)))
        (.either (enclosed .parens .openParen .closeParen content)
          (.either (enclosed .list .openBracket .closeBracket content)
            (enclosed .braces .openBrace .closeBrace (.symbol .fields)))))
  | fields => .branch .fields (commaList field)

end Symbol

/-- The tokens that a form derives with at most so many levels of nesting. -/
inductive Derives : Nat → Form → List Token → Prop where
  | one {n : Nat} {kinds : List TokenKind} {t : Token} (h : t.kind ∈ kinds) :
      Derives n (.one kinds) [t]
  | symbol {n : Nat} {s : Symbol} {ts : List Token} (h : Derives n s.rule ts) :
      Derives n (.symbol s) ts
  | both {n : Nat} {f g : Form} {ts us : List Token} (first : Derives n f ts)
      (second : Derives n g us) : Derives n (.both f g) (ts ++ us)
  | first {n : Nat} {f g : Form} {ts : List Token} (h : Derives n f ts) :
      Derives n (.either f g) ts
  | second {n : Nat} {f g : Form} {ts : List Token} (h : Derives n g ts) :
      Derives n (.either f g) ts
  | absent {n : Nat} {f : Form} : Derives n (.optional f) []
  | present {n : Nat} {f : Form} {ts : List Token} (h : Derives n f ts) :
      Derives n (.optional f) ts
  | done {n : Nat} {f : Form} : Derives n (.many f) []
  | again {n : Nat} {f : Form} {ts us : List Token} (head : Derives n f ts)
      (tail : Derives n (.many f) us) : Derives n (.many f) (ts ++ us)
  | deeper {n : Nat} {f : Form} {ts : List Token} (h : Derives n f ts) :
      Derives (n + 1) (.deeper f) ts
  | branch {n : Nat} {rule : Rule} {f : Form} {ts : List Token} (h : Derives n f ts) :
      Derives n (.branch rule f) ts
  | collapse {n : Nat} {rule : Rule} {f : Form} {ts : List Token} (h : Derives n f ts) :
      Derives n (.collapse rule f) ts

/-- The trees of a form, one after another. -/
inductive Parses : Nat → Form → List Node → Prop where
  | one {n : Nat} {kinds : List TokenKind} {t : Token} (h : t.kind ∈ kinds) :
      Parses n (.one kinds) [.leaf t]
  | symbol {n : Nat} {s : Symbol} {nodes : List Node} (h : Parses n s.rule nodes) :
      Parses n (.symbol s) nodes
  | both {n : Nat} {f g : Form} {front back : List Node} (first : Parses n f front)
      (second : Parses n g back) : Parses n (.both f g) (front ++ back)
  | first {n : Nat} {f g : Form} {nodes : List Node} (h : Parses n f nodes) :
      Parses n (.either f g) nodes
  | second {n : Nat} {f g : Form} {nodes : List Node} (h : Parses n g nodes) :
      Parses n (.either f g) nodes
  | absent {n : Nat} {f : Form} : Parses n (.optional f) []
  | present {n : Nat} {f : Form} {nodes : List Node} (h : Parses n f nodes) :
      Parses n (.optional f) nodes
  | done {n : Nat} {f : Form} : Parses n (.many f) []
  | again {n : Nat} {f : Form} {front back : List Node} (head : Parses n f front)
      (tail : Parses n (.many f) back) : Parses n (.many f) (front ++ back)
  | deeper {n : Nat} {f : Form} {nodes : List Node} (h : Parses n f nodes) :
      Parses (n + 1) (.deeper f) nodes
  | branch {n : Nat} {rule : Rule} {f : Form} {nodes : List Node} (h : Parses n f nodes) :
      Parses n (.branch rule f) [.branch rule nodes]
  | collapse {n : Nat} {rule : Rule} {f : Form} {nodes : List Node} (h : Parses n f nodes) :
      Parses n (.collapse rule f) [.collapse rule nodes]

theorem Parses.derives {n : Nat} {f : Form} {nodes : List Node} (h : Parses n f nodes) :
    Derives n f (Node.tokensOf nodes) := by
  induction h with
  | one h => simpa using Derives.one h
  | symbol _ ih => exact .symbol ih
  | both _ _ front back => simpa using Derives.both front back
  | first _ ih => exact .first ih
  | second _ ih => exact .second ih
  | absent => simpa using Derives.absent
  | present _ ih => exact .present ih
  | done => simpa using Derives.done
  | again _ _ head tail => simpa using Derives.again head tail
  | deeper _ ih => exact .deeper ih
  | branch _ ih => simpa using Derives.branch ih
  | collapse _ ih => simpa using Derives.collapse ih

theorem Derives.parses {n : Nat} {f : Form} {ts : List Token} (h : Derives n f ts) :
    ∃ nodes, Parses n f nodes ∧ Node.tokensOf nodes = ts := by
  induction h with
  | one h => exact ⟨_, .one h, by simp⟩
  | symbol _ ih =>
    obtain ⟨nodes, parses, spelled⟩ := ih
    exact ⟨nodes, .symbol parses, spelled⟩
  | both _ _ ihFirst ihSecond =>
    obtain ⟨front, parsesFront, rfl⟩ := ihFirst
    obtain ⟨back, parsesBack, rfl⟩ := ihSecond
    exact ⟨front ++ back, .both parsesFront parsesBack, by simp⟩
  | first _ ih =>
    obtain ⟨nodes, parses, spelled⟩ := ih
    exact ⟨nodes, .first parses, spelled⟩
  | second _ ih =>
    obtain ⟨nodes, parses, spelled⟩ := ih
    exact ⟨nodes, .second parses, spelled⟩
  | absent => exact ⟨[], .absent, by simp⟩
  | present _ ih =>
    obtain ⟨nodes, parses, spelled⟩ := ih
    exact ⟨nodes, .present parses, spelled⟩
  | done => exact ⟨[], .done, by simp⟩
  | again _ _ ihHead ihTail =>
    obtain ⟨front, parsesFront, rfl⟩ := ihHead
    obtain ⟨back, parsesBack, rfl⟩ := ihTail
    exact ⟨front ++ back, .again parsesFront parsesBack, by simp⟩
  | deeper _ ih =>
    obtain ⟨nodes, parses, spelled⟩ := ih
    exact ⟨nodes, .deeper parses, spelled⟩
  | branch _ ih =>
    obtain ⟨nodes, parses, spelled⟩ := ih
    exact ⟨_, .branch parses, by simpa using spelled⟩
  | collapse _ ih =>
    obtain ⟨nodes, parses, spelled⟩ := ih
    exact ⟨_, .collapse parses, by simpa using spelled⟩

theorem Parses.mono {n m : Nat} {f : Form} {nodes : List Node} (h : Parses n f nodes)
    (le : n ≤ m) : Parses m f nodes := by
  induction h generalizing m with
  | one h => exact .one h
  | symbol _ ih => exact .symbol (ih le)
  | both _ _ front back => exact .both (front le) (back le)
  | first _ ih => exact .first (ih le)
  | second _ ih => exact .second (ih le)
  | absent => exact .absent
  | present _ ih => exact .present (ih le)
  | done => exact .done
  | again _ _ head tail => exact .again (head le) (tail le)
  | deeper _ ih =>
    obtain ⟨m, rfl⟩ : ∃ k, m = k + 1 := ⟨m - 1, by omega⟩
    exact .deeper (ih (by omega))
  | branch _ ih => exact .branch (ih le)
  | collapse _ ih => exact .collapse (ih le)

section Inversion

variable {n : Nat} {f g : Form} {nodes : List Node}

@[simp] theorem parses_one {kinds : List TokenKind} :
    Parses n (.one kinds) nodes ↔ ∃ t, t.kind ∈ kinds ∧ nodes = [.leaf t] := by
  constructor
  · rintro ⟨h⟩
    exact ⟨_, h, rfl⟩
  · rintro ⟨t, h, rfl⟩
    exact .one h

theorem parses_symbol {s : Symbol} : Parses n (.symbol s) nodes ↔ Parses n s.rule nodes := by
  constructor
  · rintro ⟨⟩
    assumption
  · exact .symbol

@[simp] theorem parses_both :
    Parses n (.both f g) nodes ↔
      ∃ front back, Parses n f front ∧ Parses n g back ∧ nodes = front ++ back := by
  constructor
  · rintro ⟨⟩
    exact ⟨_, _, ‹_›, ‹_›, rfl⟩
  · rintro ⟨front, back, first, second, rfl⟩
    exact .both first second

@[simp] theorem parses_either :
    Parses n (.either f g) nodes ↔ Parses n f nodes ∨ Parses n g nodes := by
  constructor
  · rintro (h | h)
    · exact .inl ‹_›
    · exact .inr ‹_›
  · rintro (h | h)
    · exact .first h
    · exact .second h

@[simp] theorem parses_optional :
    Parses n (.optional f) nodes ↔ nodes = [] ∨ Parses n f nodes := by
  constructor
  · rintro (_ | _)
    · exact .inl rfl
    · exact .inr ‹_›
  · rintro (rfl | h)
    · exact .absent
    · exact .present h

theorem parses_deeper :
    Parses n (.deeper f) nodes ↔ ∃ m, n = m + 1 ∧ Parses m f nodes := by
  constructor
  · rintro ⟨⟩
    exact ⟨_, rfl, ‹_›⟩
  · rintro ⟨m, rfl, h⟩
    exact .deeper h

@[simp] theorem parses_branch {rule : Rule} :
    Parses n (.branch rule f) nodes ↔
      ∃ children, Parses n f children ∧ nodes = [.branch rule children] := by
  constructor
  · rintro ⟨⟩
    exact ⟨_, ‹_›, rfl⟩
  · rintro ⟨children, h, rfl⟩
    exact .branch h

@[simp] theorem parses_collapse {rule : Rule} :
    Parses n (.collapse rule f) nodes ↔
      ∃ children, Parses n f children ∧ nodes = [.collapse rule children] := by
  constructor
  · rintro ⟨⟩
    exact ⟨_, ‹_›, rfl⟩
  · rintro ⟨children, h, rfl⟩
    exact .collapse h

/-- A repetition holds of nothing and of what grows by one part at its front. -/
theorem Parses.many_induction {motive : List Node → Prop} (h : Parses n (.many f) nodes)
    (done : motive [])
    (again : ∀ front back, Parses n f front → Parses n (.many f) back → motive back →
      motive (front ++ back)) : motive nodes := by
  generalize same : Form.many f = form at h
  induction h with
  | done => exact done
  | again head tail _ ih =>
    cases same
    exact again _ _ head tail (ih again rfl)
  | _ => cases same

theorem Parses.many_append {front back : List Node} (first : Parses n (.many f) front)
    (second : Parses n (.many f) back) : Parses n (.many f) (front ++ back) := by
  refine first.many_induction (motive := fun front => Parses n (.many f) (front ++ back)) second ?_
  intro head tail hHead _ ih
  rw [List.append_assoc]
  exact .again hHead ih

theorem Parses.many_all {P : Node → Prop}
    (each : ∀ {part}, Parses n f part → ∀ node ∈ part, P node) (h : Parses n (.many f) nodes) :
    ∀ node ∈ nodes, P node := by
  refine h.many_induction (motive := fun nodes => ∀ node ∈ nodes, P node) (by simp) ?_
  intro front back hFront _ ih node member
  rcases List.mem_append.1 member with member | member
  · exact each hFront node member
  · exact ih node member

theorem Parses.mem_many (single : ∀ {nodes}, Parses n f nodes → ∃ node, nodes = [node])
    (h : Parses n (.many f) nodes) : ∀ node ∈ nodes, Parses n f [node] := by
  refine h.many_all (P := fun node => Parses n f [node]) fun {part} hPart node member => ?_
  obtain ⟨only, rfl⟩ := single hPart
  exact List.mem_singleton.1 member ▸ hPart

theorem parses_expression :
    Parses n (.symbol .expression) nodes ↔
      ∃ m, n = m + 1 ∧ Parses m (.symbol (.chain .disjunction)) nodes := by
  rw [parses_symbol, Symbol.rule, parses_deeper]

def Tier.more (tier : Tier) : Form :=
  .many (.both tier.operator (.symbol tier.operand))

theorem parses_negation :
    Parses n (.symbol .negation) nodes ↔
      (∃ t operand, t.kind = .notWord ∧ Parses n (.deeper (.symbol .negation)) operand ∧
        nodes = [.branch .negation (.leaf t :: operand)]) ∨
      Parses n (.symbol (.chain .comparison)) nodes := by
  rw [parses_symbol, Symbol.rule, parses_either]
  refine or_congr ?_ Iff.rfl
  simp only [parses_branch, parses_both, parses_one, List.mem_singleton]
  constructor
  · rintro ⟨_, ⟨_, operand, ⟨t, kind, rfl⟩, h, rfl⟩, rfl⟩
    exact ⟨t, operand, kind, h, rfl⟩
  · rintro ⟨t, operand, kind, h, rfl⟩
    exact ⟨_, ⟨_, operand, ⟨t, kind, rfl⟩, h, rfl⟩, rfl⟩

theorem parses_signed :
    Parses n (.symbol .signed) nodes ↔
      (∃ t operand, t.kind ∈ [TokenKind.minus, .plus] ∧
        Parses n (.deeper (.symbol .signed)) operand ∧
        nodes = [.branch .signed (.leaf t :: operand)]) ∨
      Parses n (.symbol .access) nodes := by
  rw [parses_symbol, Symbol.rule, parses_either]
  refine or_congr ?_ Iff.rfl
  simp only [parses_branch, parses_both, parses_one]
  constructor
  · rintro ⟨_, ⟨_, operand, ⟨t, kind, rfl⟩, h, rfl⟩, rfl⟩
    exact ⟨t, operand, kind, h, rfl⟩
  · rintro ⟨t, operand, kind, h, rfl⟩
    exact ⟨_, ⟨_, operand, ⟨t, kind, rfl⟩, h, rfl⟩, rfl⟩

theorem parses_access :
    Parses n (.symbol .access) nodes ↔
      ∃ first more, Parses n (.symbol .atom) first ∧ Parses n (.many (.symbol .trailer)) more ∧
        nodes = [.branch .access (first ++ more)] := by
  simp only [parses_symbol (s := .access), Symbol.rule, parses_branch, parses_both]
  constructor
  · rintro ⟨_, ⟨first, more, hFirst, hMore, rfl⟩, rfl⟩
    exact ⟨first, more, hFirst, hMore, rfl⟩
  · rintro ⟨first, more, hFirst, hMore, rfl⟩
    exact ⟨_, ⟨first, more, hFirst, hMore, rfl⟩, rfl⟩

theorem parses_single {s : Symbol} (notList : s ≠ .expressions)
    (h : Parses n (.symbol s) nodes) : ∃ node, nodes = [node] := by
  have chains (n : Nat) (tier : Tier) (nodes : List Node)
      (h : Parses n (.symbol (.chain tier)) nodes) : ∃ node, nodes = [node] := by
    rw [parses_symbol, Symbol.rule, parses_collapse] at h
    obtain ⟨_, _, rfl⟩ := h
    exact ⟨_, rfl⟩
  have accesses (n : Nat) (nodes : List Node) (h : Parses n (.symbol .access) nodes) :
      ∃ node, nodes = [node] := by
    obtain ⟨_, _, _, _, rfl⟩ := parses_access.1 h
    exact ⟨_, rfl⟩
  have expressions (n : Nat) (nodes : List Node) (h : Parses n (.symbol .expression) nodes) :
      ∃ node, nodes = [node] := by
    obtain ⟨m, -, h⟩ := parses_expression.1 h
    exact chains m _ nodes h
  cases s with
  | query | attributeName | trailer | arguments | atom | fields =>
    rw [parses_symbol] at h
    simp only [Symbol.rule, Form.enclosed, Form.commaList, parses_either, parses_branch,
      parses_one] at h
    grind
  | expressions => exact absurd rfl notList
  | expression => exact expressions n nodes h
  | chain tier => exact chains n tier nodes h
  | negation =>
    rcases parses_negation.1 h with ⟨_, _, _, _, rfl⟩ | h
    · exact ⟨_, rfl⟩
    · exact chains n _ nodes h
  | signed =>
    rcases parses_signed.1 h with ⟨_, _, _, _, rfl⟩ | h
    · exact ⟨_, rfl⟩
    · exact accesses n nodes h
  | access => exact accesses n nodes h
  | argument =>
    rw [parses_symbol, Symbol.rule, parses_either, parses_branch] at h
    rcases h with h | ⟨_, _, rfl⟩
    · exact expressions n nodes h
    · exact ⟨_, rfl⟩

theorem parses_deeper_single {s : Symbol} (notList : s ≠ .expressions)
    (h : Parses n (.deeper (.symbol s)) nodes) : ∃ node, nodes = [node] := by
  obtain ⟨m, rfl, inner⟩ := parses_deeper.1 h
  exact parses_single notList inner

theorem parses_commaList :
    Parses n (Form.commaList f) nodes ↔
      ∃ first more trailing, Parses n f first ∧ Parses n (.many (.both (.one [.comma]) f)) more ∧
        (trailing = [] ∨ ∃ t, t.kind = .comma ∧ trailing = [.leaf t]) ∧
        nodes = first ++ (more ++ trailing) := by
  simp only [Form.commaList, parses_both, parses_optional, parses_one, List.mem_singleton]
  constructor
  · rintro ⟨first, _, hFirst, ⟨more, trailing, hMore, hTrailing, rfl⟩, rfl⟩
    exact ⟨first, more, trailing, hFirst, hMore, hTrailing, rfl⟩
  · rintro ⟨first, more, trailing, hFirst, hMore, hTrailing, rfl⟩
    exact ⟨first, _, hFirst, ⟨more, trailing, hMore, hTrailing, rfl⟩, rfl⟩

theorem Parses.commaList_all {P : Node → Prop} (h : Parses n (Form.commaList f) nodes)
    (comma : ∀ t, t.kind = .comma → P (.leaf t))
    (each : ∀ {part}, Parses n f part → ∀ node ∈ part, P node) : ∀ node ∈ nodes, P node := by
  obtain ⟨first, more, trailing, hFirst, hMore, hTrailing, rfl⟩ := parses_commaList.1 h
  have inMore : ∀ node ∈ more, P node := by
    refine hMore.many_all fun {part} hPart node member => ?_
    obtain ⟨_, item, hComma, hItem, rfl⟩ := parses_both.1 hPart
    obtain ⟨t, isComma, rfl⟩ := parses_one.1 hComma
    rcases List.mem_append.1 member with member | member
    · exact List.mem_singleton.1 member ▸ comma t (List.mem_singleton.1 isComma)
    · exact each hItem node member
  intro node member
  rcases List.mem_append.1 member with member | member
  · exact each hFirst node member
  rcases List.mem_append.1 member with member | member
  · exact inMore node member
  · rcases hTrailing with rfl | ⟨t, isComma, rfl⟩
    · cases member
    · exact List.mem_singleton.1 member ▸ comma t isComma

theorem Tier.operand_ne_expressions (tier : Tier) : tier.operand ≠ .expressions := by
  cases tier <;> simp [Tier.operand]

theorem parses_chain {tier : Tier} :
    Parses n (.symbol (.chain tier)) nodes ↔
      ∃ first more, Parses n (.symbol tier.operand) [first] ∧ Parses n tier.more more ∧
        nodes = [.collapse tier.rule (first :: more)] := by
  simp only [parses_symbol (s := .chain tier), Symbol.rule, parses_collapse, parses_both]
  constructor
  · rintro ⟨_, ⟨front, more, hFirst, hMore, rfl⟩, rfl⟩
    obtain ⟨first, rfl⟩ := parses_single tier.operand_ne_expressions hFirst
    exact ⟨first, more, hFirst, hMore, rfl⟩
  · rintro ⟨first, more, hFirst, hMore, rfl⟩
    exact ⟨_, ⟨[first], more, hFirst, hMore, rfl⟩, rfl⟩

theorem operator_cases {tier : Tier} (h : Parses n tier.operator nodes) :
    (∃ t, t.kind ∈ tier.kinds ∧ nodes = [.leaf t]) ∨
      tier = .comparison ∧ ∃ t u, t.kind = .notWord ∧ u.kind = .inWord ∧
        nodes = [.branch .notIn [.leaf t, .leaf u]] := by
  cases tier with
  | comparison =>
    rcases parses_either.1 h with one | two
    · exact .inl (parses_one.1 one)
    · simp only [parses_branch, parses_both, parses_one, List.mem_singleton] at two
      obtain ⟨_, ⟨_, _, ⟨t, isNot, rfl⟩, ⟨u, isIn, rfl⟩, rfl⟩, rfl⟩ := two
      exact .inr ⟨rfl, t, u, isNot, isIn, rfl⟩
  | disjunction | conjunction | sum | product => exact .inl (parses_one.1 h)

theorem parses_enclosed {rule : Rule} {opening closing : TokenKind} :
    Parses n (Form.enclosed rule opening closing f) nodes ↔
      ∃ first content last, first.kind = opening ∧ last.kind = closing ∧
        (content = [] ∨ Parses n f content) ∧
        nodes = [.branch rule (.leaf first :: (content ++ [.leaf last]))] := by
  simp only [Form.enclosed, parses_branch, parses_both, parses_one, parses_optional,
    List.mem_singleton]
  constructor
  · rintro ⟨_, ⟨_, _, ⟨first, opens, rfl⟩, ⟨content, _, h, ⟨last, closes, rfl⟩, rfl⟩, rfl⟩, rfl⟩
    exact ⟨first, content, last, opens, closes, h, rfl⟩
  · rintro ⟨first, content, last, opens, closes, h, rfl⟩
    exact ⟨_, ⟨_, _, ⟨first, opens, rfl⟩, ⟨content, _, h, ⟨last, closes, rfl⟩, rfl⟩, rfl⟩, rfl⟩

theorem parses_attributeName :
    Parses n (.symbol .attributeName) nodes ↔ ∃ t, t.kind ∈ Symbol.words ∧ nodes = [.leaf t] := by
  rw [parses_symbol, Symbol.rule, parses_one]

theorem parses_trailer :
    Parses n (.symbol .trailer) nodes ↔
      Parses n (Form.enclosed .trailer .openParen .closeParen (.symbol .arguments)) nodes ∨
      (∃ first index last, first.kind = .openBracket ∧ last.kind = .closeBracket ∧
        Parses n (.symbol .expression) [index] ∧
        nodes = [.branch .trailer [.leaf first, index, .leaf last]]) ∨
      (∃ dot name, dot.kind = .dot ∧ name.kind ∈ Symbol.words ∧
        nodes = [.branch .trailer [.leaf dot, .leaf name]]) := by
  rw [parses_symbol, Symbol.rule, parses_either, parses_either]
  simp only [parses_branch, parses_both, parses_one, parses_attributeName, List.mem_singleton]
  refine or_congr Iff.rfl (or_congr ?_ ?_)
  · constructor
    · rintro ⟨_, ⟨_, _, ⟨first, opens, rfl⟩, ⟨indices, _, h, ⟨last, closes, rfl⟩, rfl⟩, rfl⟩, rfl⟩
      obtain ⟨index, rfl⟩ := parses_single (by simp) h
      exact ⟨first, index, last, opens, closes, h, rfl⟩
    · rintro ⟨first, index, last, opens, closes, h, rfl⟩
      exact ⟨_, ⟨_, _, ⟨first, opens, rfl⟩, ⟨[index], _, h, ⟨last, closes, rfl⟩, rfl⟩, rfl⟩, rfl⟩
  · constructor
    · rintro ⟨_, ⟨_, _, ⟨dot, kind, rfl⟩, ⟨name, word, rfl⟩, rfl⟩, rfl⟩
      exact ⟨dot, name, kind, word, rfl⟩
    · rintro ⟨dot, name, kind, word, rfl⟩
      exact ⟨_, ⟨_, _, ⟨dot, kind, rfl⟩, ⟨name, word, rfl⟩, rfl⟩, rfl⟩

theorem parses_argument :
    Parses n (.symbol .argument) nodes ↔
      Parses n (.symbol .expression) nodes ∨
      ∃ name sign bound, name.kind = .name ∧ sign.kind = .assign ∧
        Parses n (.symbol .expression) [bound] ∧
        nodes = [.branch .binding [.branch .access [.leaf name], .leaf sign, bound]] := by
  rw [parses_symbol, Symbol.rule, parses_either]
  simp only [parses_branch, parses_both, parses_one, List.mem_singleton]
  refine or_congr Iff.rfl ?_
  constructor
  · rintro ⟨_, ⟨_, _, ⟨_, ⟨name, isName, rfl⟩, rfl⟩, ⟨_, bounds, ⟨sign, assigns, rfl⟩, h, rfl⟩,
      rfl⟩, rfl⟩
    obtain ⟨bound, rfl⟩ := parses_single (by simp) h
    exact ⟨name, sign, bound, isName, assigns, h, rfl⟩
  · rintro ⟨name, sign, bound, isName, assigns, h, rfl⟩
    exact ⟨_, ⟨_, _, ⟨_, ⟨name, isName, rfl⟩, rfl⟩, ⟨_, [bound], ⟨sign, assigns, rfl⟩, h, rfl⟩,
      rfl⟩, rfl⟩

theorem parses_arguments :
    Parses n (.symbol .arguments) nodes ↔
      ∃ content, Parses n (Form.commaList (.symbol .argument)) content ∧
        nodes = [.branch .arguments content] := by
  rw [parses_symbol, Symbol.rule, parses_branch]

theorem parses_field :
    Parses n Form.field nodes ↔
      ∃ key colon value, Parses n (.symbol .expression) [key] ∧ colon.kind = .colon ∧
        Parses n (.symbol .expression) [value] ∧ nodes = [key, .leaf colon, value] := by
  simp only [Form.field, parses_both, parses_one, List.mem_singleton]
  constructor
  · rintro ⟨keys, _, hKey, ⟨_, values, ⟨colon, kind, rfl⟩, hValue, rfl⟩, rfl⟩
    obtain ⟨key, rfl⟩ := parses_single (by simp) hKey
    obtain ⟨value, rfl⟩ := parses_single (by simp) hValue
    exact ⟨key, colon, value, hKey, kind, hValue, rfl⟩
  · rintro ⟨key, colon, value, hKey, kind, hValue, rfl⟩
    exact ⟨[key], _, hKey, ⟨_, [value], ⟨colon, kind, rfl⟩, hValue, rfl⟩, rfl⟩

theorem parses_content :
    Parses n Form.content nodes ↔
      ∃ items, Parses n (Form.commaList (.symbol .expression)) items ∧
        nodes = [.collapse .sequence items] := by
  rw [Form.content, parses_collapse]
  simp only [parses_symbol (s := .expressions), Symbol.rule]

theorem parses_fields :
    Parses n (.symbol .fields) nodes ↔
      ∃ parts, Parses n (Form.commaList Form.field) parts ∧ nodes = [.branch .fields parts] := by
  rw [parses_symbol, Symbol.rule, parses_branch]

theorem parses_atom :
    Parses n (.symbol .atom) nodes ↔
      (∃ t, t.kind ∈ Symbol.simpleAtoms ∧ nodes = [.leaf t]) ∨
      (∃ dot name, dot.kind = .dot ∧ name.kind ∈ Symbol.words ∧
        nodes = [.branch .implicitField [.leaf dot, .leaf name]]) ∨
      Parses n (Form.enclosed .parens .openParen .closeParen Form.content) nodes ∨
      Parses n (Form.enclosed .list .openBracket .closeBracket Form.content) nodes ∨
      Parses n (Form.enclosed .braces .openBrace .closeBrace (.symbol .fields)) nodes := by
  rw [parses_symbol, Symbol.rule]
  simp only [parses_either]
  refine or_congr parses_one (or_congr ?_ Iff.rfl)
  simp only [parses_branch, parses_both, parses_one, parses_attributeName, List.mem_singleton]
  constructor
  · rintro ⟨_, ⟨_, _, ⟨dot, kind, rfl⟩, ⟨name, word, rfl⟩, rfl⟩, rfl⟩
    exact ⟨dot, name, kind, word, rfl⟩
  · rintro ⟨dot, name, kind, word, rfl⟩
    exact ⟨_, ⟨_, _, ⟨dot, kind, rfl⟩, ⟨name, word, rfl⟩, rfl⟩, rfl⟩

theorem parses_query :
    Parses n (.symbol .query) nodes ↔
      ∃ items last, Parses n (Form.commaList (.symbol .expression)) items ∧
        last.kind = .endOfInput ∧
        nodes = [.branch .query [.branch .sequence items, .leaf last]] := by
  rw [parses_symbol, Symbol.rule]
  simp only [parses_branch, parses_both, parses_one, parses_symbol (s := .expressions),
    Symbol.rule, List.mem_singleton]
  constructor
  · rintro ⟨_, ⟨_, _, ⟨items, h, rfl⟩, ⟨last, kind, rfl⟩, rfl⟩, rfl⟩
    exact ⟨items, last, h, kind, rfl⟩
  · rintro ⟨items, last, h, kind, rfl⟩
    exact ⟨_, ⟨_, _, ⟨items, h, rfl⟩, ⟨last, kind, rfl⟩, rfl⟩, rfl⟩

theorem parses_chain_of_operand (tier : Tier) {node : Node}
    (h : Parses n (.symbol tier.operand) [node]) : Parses n (.symbol (.chain tier)) [node] :=
  parses_chain.2 ⟨node, [], h, .done, rfl⟩

theorem parses_comparison_of_access {node : Node} (h : Parses n (.symbol .access) [node]) :
    Parses n (.symbol (.chain .comparison)) [node] :=
  parses_chain_of_operand .comparison (parses_chain_of_operand .sum
    (parses_chain_of_operand .product (parses_signed.2 (.inr h))))

theorem parses_disjunction_of_access {node : Node} (h : Parses n (.symbol .access) [node]) :
    Parses n (.symbol (.chain .disjunction)) [node] :=
  parses_chain_of_operand .disjunction (parses_chain_of_operand .conjunction
    (parses_negation.2 (.inr (parses_comparison_of_access h))))

theorem operand_of_chain (tier : Tier) {node : Node} (h : Parses n (.symbol (.chain tier)) [node])
    (other : ∀ first second more, node ≠ .branch tier.rule (first :: second :: more)) :
    Parses n (.symbol tier.operand) [node] := by
  obtain ⟨first, more, hFirst, -, same⟩ := parses_chain.1 h
  cases same
  cases more with
  | nil => exact hFirst
  | cons second more => exact absurd rfl (other first second more)

theorem access_of_expression {node : Node} (h : Parses n (.symbol .expression) [node])
    (other : ∀ rule first second more, rule ≠ .access →
      node ≠ .branch rule (first :: second :: more)) :
    ∃ m, n = m + 1 ∧ Parses m (.symbol .access) [node] := by
  have operand (tier : Tier) {m : Nat} (h : Parses m (.symbol (.chain tier)) [node]) :
      Parses m (.symbol tier.operand) [node] :=
    operand_of_chain tier h fun first second more =>
      other tier.rule first second more (by cases tier <;> decide)
  obtain ⟨m, levels, h⟩ := parses_expression.1 h
  rcases parses_negation.1 (operand .conjunction (operand .disjunction h)) with
    ⟨t, right, -, hRight, same⟩ | h
  · obtain ⟨right, rfl⟩ := parses_deeper_single (by simp) hRight
    cases same
    exact absurd rfl (other .negation _ _ [] (by decide))
  rcases parses_signed.1 (operand .product (operand .sum (operand .comparison h))) with
    ⟨t, right, -, hRight, same⟩ | access
  · obtain ⟨right, rfl⟩ := parses_deeper_single (by simp) hRight
    cases same
    exact absurd rfl (other .signed _ _ [] (by decide))
  · exact ⟨m, levels, access⟩

theorem parses_expression_of_name {t : Token} (h : t.kind = .name) :
    Parses (n + 1) (.symbol .expression) [.branch .access [.leaf t]] := by
  have atom : Parses n (.symbol .atom) [.leaf t] :=
    parses_atom.2 (.inl ⟨t, by simp [Symbol.simpleAtoms, h], rfl⟩)
  exact parses_expression.2
    ⟨n, rfl, parses_disjunction_of_access (parses_access.2 ⟨_, [], atom, .done, rfl⟩)⟩

end Inversion

end RecordPipeline.Grammar
