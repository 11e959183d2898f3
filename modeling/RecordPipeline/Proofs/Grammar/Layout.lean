import RecordPipeline.Proofs.Grammar.Correspondence
import RecordPipeline.Proofs.Grammar.Places

/-!
No decision of the parser or of lowering looks at a place. Without the places of its tokens a stream is
read as the tree that it was read as with them, or refused for the same cause; so two texts of the same
tokens give the same trees, expressions and faults, up to places.
-/

namespace RecordPipeline

open RecordPipeline.Parser

namespace TokenStream

def plain (s : TokenStream) : TokenStream :=
  ⟨s.current.plain, s.later.map Token.plain⟩

@[simp] theorem kind_plain (s : TokenStream) : s.plain.kind = s.kind := rfl

@[simp] theorem current_plain (s : TokenStream) : s.plain.current = s.current.plain := rfl

@[simp] theorem nextKind?_plain (s : TokenStream) : s.plain.nextKind? = s.nextKind? := by
  obtain ⟨current, later⟩ := s
  cases later <;> rfl

theorem advance_plain (s : TokenStream) : s.plain.advance = s.advance.plain := by
  obtain ⟨current, later⟩ := s
  rw [advance, advance, kind_plain]
  split
  · rfl
  · cases later <;> rfl

theorem plain_ofTokens (tokens : List Token) :
    (ofTokens tokens).plain = ofTokens (tokens.map Token.plain) := by
  cases tokens <;> rfl

end TokenStream

namespace Node

theorem plainAll_eq_map (nodes : List Node) : plainAll nodes = nodes.map plain := by
  induction nodes with
  | nil => rw [plainAll_nil, List.map_nil]
  | cons node later ih => rw [plainAll_cons, List.map_cons, ih]

theorem lowerQuery_plain (node : Node) :
    node.plain.lowerQuery = node.lowerQuery.mapError Fault.plain := by
  have misread {children : List Node} {rule : Rule} (other : rule ≠ .query) :
      (branch rule children).lowerQuery = misplaced := by
    cases rule <;> first | rfl | exact absurd rfl other
  rcases node with t | ⟨rule, children⟩
  · rfl
  · rw [plain_branch]
    by_cases query : rule = .query
    · subst query
      rcases children with _ | ⟨content | ⟨inner, items⟩, later⟩
      · rw [plainAll_nil]
        rfl
      · rw [plainAll_cons, plain_leaf, lowerQuery, lowerQuery, ← lower_plain, plain_leaf]
        all_goals simp
      · rcases items with _ | ⟨single, _ | ⟨second, more⟩⟩ <;>
          simp only [plainAll_cons, plainAll_nil, plain_branch, lowerQuery, ← lower_plain]
    · rw [misread query, misread query]
      rfl

theorem lowerArgumentList_plain (node : Node) :
    node.plain.lowerArgumentList = node.lowerArgumentList.mapError Fault.plain := by
  cases node with
  | leaf t => exact lowerArguments_plainAll []
  | branch rule children =>
    rw [plain_branch]
    exact lowerArguments_plainAll children

end Node

namespace Parser

variable {α β : Type}

/-- On every stream without places, the second parser gives what the first gives on the stream, and
what it gives has no places. -/
def Mirrors (f : α → β) (p : Parser α) (q : Parser β) : Prop :=
  ∀ s, q s.plain = (((p s).1.map f).mapError Fault.plain, (p s).2.plain)

theorem Mirrors.bind {γ δ : Type} {f : α → β} {g : γ → δ} {p : Parser α} {q : Parser β}
    {k : α → Parser γ} {l : β → Parser δ} (first : Mirrors f p q)
    (rest : ∀ a, Mirrors g (k a) (l (f a))) : Mirrors g (p >>= k) (q >>= l) := by
  intro s
  rw [bind_apply, bind_apply, first s]
  obtain ⟨outcome, t⟩ := p s
  cases outcome with
  | ok a => exact rest a t
  | error fault => rfl

def withoutPlaces : Correspondence TokenStream TokenStream where
  node := Node.plain
  place _ := 0
  holds := Mirrors
  branch rule children := by rw [Node.plain_branch, Node.plainAll_eq_map]
  named := Node.bareName?_plain
  value same _ := by
    rw [← same]
    rfl
  bind := Mirrors.bind
  peek rest s := rest s.kind s
  peekPair first second rest s := by
    rw [bind_apply, Parser.peekPair, TokenStream.source_nextKind?, TokenStream.nextKind?_plain]
    exact rest _ s
  offset _ := rfl
  take s := by
    rw [Parser.take, Parser.take, TokenStream.source_advance, TokenStream.source_current,
      TokenStream.advance_plain, TokenStream.current_plain, ← Node.plain_leaf]
    rfl
  failAt _ _ _ _ := rfl
  unexpected _ _ _ := rfl
  bounded rest s := rest s.later (s.later.map Token.plain) (List.length_map _).symm s

theorem level_withoutPlaces (levels : Nat) :
    withoutPlaces.Levels (level levels) (level levels) := by
  induction levels with
  | zero => exact ⟨fun _ => rfl, fun _ => rfl, fun _ => rfl⟩
  | succ levels ih => exact ih.succ

theorem query_withoutPlaces : Mirrors Node.plain query query :=
  (level_withoutPlaces maxNesting).query

theorem arguments_withoutPlaces : Mirrors Node.plain arguments arguments :=
  (level_withoutPlaces maxNesting).arguments

end Parser

def AlikeResults (x y : Except Fault Node) : Prop :=
  (x.map Node.plain).mapError Fault.plain = (y.map Node.plain).mapError Fault.plain

section Texts

variable {first second : String} {ts us : List Token}

theorem parse_of_alike {p : Parser Node} (mirrors : Mirrors Node.plain p p)
    (readFirst : tokenize first = .ok ts) (readSecond : tokenize second = .ok us)
    (same : ts.map Token.plain = us.map Token.plain) :
    AlikeResults (p.parse first) (p.parse second) := by
  have plain {source : String} {tokens : List Token} (read : tokenize source = .ok tokens) :
      ((p.parse source).map Node.plain).mapError Fault.plain =
        (p (.ofTokens (tokens.map Token.plain))).1 := by
    rw [← TokenStream.plain_ofTokens, mirrors, Parser.parse, read]
    rfl
  rw [AlikeResults, plain readFirst, plain readSecond, same]

theorem AlikeResults.bind {α : Type} {x y : Except Fault Node} (alike : AlikeResults x y)
    {f : Node → Except Fault α} (plain : ∀ node, f node.plain = (f node).mapError Fault.plain) :
    (x >>= f).mapError Fault.plain = (y >>= f).mapError Fault.plain := by
  have through (z : Except Fault Node) : (z >>= f).mapError Fault.plain =
      (z.map Node.plain).mapError Fault.plain >>= f := by
    cases z with
    | ok node => exact (plain node).symm
    | error fault => rfl
  rw [through, through, alike]

theorem AlikeResults.messages {x y : Except Fault Node} (alike : AlikeResults x y) :
    (x.map Node.plain).mapError (·.cause.message) = (y.map Node.plain).mapError (·.cause.message) := by
  have through (z : Except Fault Node) : (z.map Node.plain).mapError (·.cause.message) =
      ((z.map Node.plain).mapError Fault.plain).mapError (·.cause.message) := by
    cases z <;> rfl
  rw [through, through, alike]

theorem message_locate {α : Type} (source : String) (x : Except Fault α) :
    (locate source x).mapError SyntaxError.message =
      (x.mapError Fault.plain).mapError fun fault => fault.cause.message := by
  cases x <;> rfl

end Texts

end RecordPipeline
