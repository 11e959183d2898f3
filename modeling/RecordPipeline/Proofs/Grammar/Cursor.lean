import RecordPipeline.Proofs.Grammar.Acceptance
import RecordPipeline.Proofs.Grammar.Recording

/-!
A parser that is asked again and again stays sound. A cursor does what the stream of the tokens ahead of
it does, at a depth of as many levels as the stream has lost: that is a correspondence for every depth,
and it carries along that the cursor stays within its tokens and never goes back. So after any number of
answers, faults among them, no level is open, the current token is the one at the position, and each
tree that was read has the tokens between the places where reading started and stopped.
-/

namespace RecordPipeline

open RecordPipeline.Parser

namespace Cursor

variable {tokens : List Token} {c : Cursor}

def stream (c : Cursor) : TokenStream :=
  .ofTokens (c.tokens.drop c.position)

structure Within (tokens : List Token) (c : Cursor) : Prop where
  tokens_eq : c.tokens = tokens
  position_lt : c.position < tokens.length
  depth_le : c.depth ≤ maxNesting

structure Ready (tokens : List Token) (c : Cursor) : Prop extends c.Within tokens where
  closed : c.depth = 0

namespace Within

theorem getElem?_position (h : c.Within tokens) : tokens[c.position]? = some c.current := by
  have inside := h.position_lt
  rw [current, h.tokens_eq, Nat.min_eq_left (by omega), List.getD_eq_getElem?_getD,
    List.getElem?_eq_getElem inside, Option.getD_some]

theorem drop_position (h : c.Within tokens) :
    c.tokens.drop c.position = c.current :: c.tokens.drop (c.position + 1) := by
  have inside := h.position_lt
  have found := h.getElem?_position
  rw [List.getElem?_eq_getElem inside, Option.some.injEq] at found
  rw [h.tokens_eq, List.drop_eq_getElem_cons inside, found]

theorem stream_eq (h : c.Within tokens) :
    c.stream = ⟨c.current, c.tokens.drop (c.position + 1)⟩ := by
  rw [stream, h.drop_position]
  rfl

theorem toList_stream (h : c.Within tokens) : c.stream.toList = tokens.drop c.position := by
  rw [stream, h.tokens_eq.symm, h.drop_position]
  rfl

theorem current_stream (h : c.Within tokens) : c.stream.current = c.current := by
  rw [h.stream_eq]

theorem kind_stream (h : c.Within tokens) : c.stream.kind = c.current.kind := by
  rw [TokenStream.kind, h.current_stream]

theorem nextKind?_stream (h : c.Within tokens) : c.stream.nextKind? = c.nextKind? := by
  rw [h.stream_eq, TokenStream.nextKind?, Cursor.nextKind?, List.head?_drop]

theorem later_stream (h : c.Within tokens) : c.stream.later = TokenSource.later c := by
  rw [h.stream_eq]
  rfl

theorem ended_stream (h : c.Within tokens) (ended : (TokenStream.ofTokens tokens).Ended) :
    c.stream.Ended := by
  have inside := h.position_lt
  obtain ⟨body, last, spelled, lastKind, bodyKinds⟩ := ended
  obtain ⟨first, later, rfl⟩ := List.exists_cons_of_length_pos (Nat.zero_lt_of_lt inside)
  rw [TokenStream.toList_ofTokens_cons] at spelled
  rw [spelled, List.length_append, List.length_singleton] at inside
  refine ⟨body.drop c.position, last, ?_, lastKind, fun t member => ?_⟩
  · rw [h.toList_stream, spelled, List.drop_append_of_le_length (by omega)]
  · exact bodyKinds t (List.mem_of_mem_drop member)

theorem advance (h : c.Within tokens) (ended : (TokenStream.ofTokens tokens).Ended) :
    c.advance.Within tokens ∧ c.advance.stream = c.stream.advance := by
  by_cases atEnd : c.current.kind = .endOfInput
  · rw [Cursor.advance, if_pos atEnd,
      TokenStream.advance_of_end (h.kind_stream.trans atEnd)]
    exact ⟨h, rfl⟩
  · have moved := ((h.ended_stream ended).advance (h.kind_stream ▸ atEnd)).1
    have ahead : c.stream.advance.toList = tokens.drop (c.position + 1) := by
      rw [h.toList_stream, ← h.tokens_eq, h.drop_position, h.current_stream] at moved
      rw [← h.tokens_eq]
      exact (List.cons.inj moved).2.symm
    have more : c.position + 1 < tokens.length := by
      refine Nat.lt_of_not_le fun past => ?_
      rw [List.drop_eq_nil_of_le past] at ahead
      cases ahead
    rw [Cursor.advance, if_neg atEnd]
    refine ⟨⟨h.tokens_eq, more, h.depth_le⟩, ?_⟩
    rw [stream, h.tokens_eq, ← ahead, TokenStream.ofTokens_toList]

theorem ext {d : Cursor} (h : c.Within tokens) (other : d.Within tokens)
    (ahead : c.stream = d.stream) (level : c.depth = d.depth) : c = d := by
  have same := congrArg (fun s => s.toList.length) ahead
  simp only [h.toList_stream, other.toList_stream, List.length_drop] at same
  have inside := h.position_lt
  have insideOther := other.position_lt
  exact Cursor.ext (h.tokens_eq.trans other.tokens_eq.symm) (by omega) level

end Within

theorem position_le_advance (c : Cursor) : c.position ≤ c.advance.position := by
  rw [advance]
  split
  · exact Nat.le_refl c.position
  · exact Nat.le_succ c.position

theorem depth_advance (c : Cursor) : c.advance.depth = c.depth := by
  rw [advance]
  split <;> rfl

end Cursor

namespace Recorded

/-- All that is on record is within the tokens, and nothing went back. -/
structure Sound (tokens : List Token) (r : Recorded Cursor) : Prop where
  within : ∀ c ∈ r.history, c.Within tokens
  forward : r.history.Pairwise fun later earlier => earlier.position ≤ later.position

namespace Sound

variable {tokens : List Token} {r : Recorded Cursor}

theorem now (h : r.Sound tokens) : r.now.Within tokens :=
  h.within r.now (List.mem_cons_self ..)

theorem position_le (h : r.Sound tokens) : ∀ c ∈ r.history, c.position ≤ r.now.position := by
  intro c member
  rcases List.mem_cons.1 member with rfl | member
  · exact Nat.le_refl _
  · exact List.rel_of_pairwise_cons h.forward member

theorem start {c : Cursor} (h : c.Within tokens) : (Recorded.mk c []).Sound tokens :=
  ⟨fun _ member => List.mem_singleton.1 member ▸ h, List.pairwise_singleton ..⟩

theorem step {move : Cursor → Cursor} (h : r.Sound tokens) (within : (move r.now).Within tokens)
    (forward : r.now.position ≤ (move r.now).position) : (r.step move).Sound tokens where
  within c member := by
    rcases List.mem_cons.1 member with rfl | member
    · exact within
    · exact h.within c member
  forward :=
    List.pairwise_cons.2 ⟨fun c member => Nat.le_trans (h.position_le c member) forward, h.forward⟩

end Sound

end Recorded

namespace Parser

open TokenSource NestedSource

variable {α β : Type} {tokens : List Token} {depth : Nat}

/-- From cursors at that depth, the second parser does on the tokens ahead what the first does with the
cursor, and the first keeps the record sound and comes back to the depth. -/
abbrev Follows (tokens : List Token) (depth : Nat) (f : α → β) (p : ParserOn (Recorded Cursor) α)
    (q : Parser β) : Prop :=
  Simulates (·.now.stream) (fun r => r.Sound tokens ∧ r.now.depth = depth) f p q

theorem Follows.fault (f : α → β) {p : ParserOn (Recorded Cursor) α} {q : Parser β}
    (cause : Token → Cause)
    (first : ∀ r, p r = (.error ⟨cause (current r), (current r).offset⟩, r))
    (second : ∀ s, q s = (.error ⟨cause s.current, s.current.offset⟩, s)) :
    Follows tokens depth f p q :=
  Simulates.look first fun r ⟨sound, _⟩ => by
    rw [second, sound.now.current_stream]
    rfl

theorem Follows.take (ended : (TokenStream.ofTokens tokens).Ended) :
    Follows tokens depth id Parser.take Parser.take := by
  rintro r ⟨sound, level⟩
  obtain ⟨within, same⟩ := sound.now.advance ended
  refine ⟨?_, sound.step within r.now.position_le_advance, r.now.depth_advance.trans level⟩
  rw [Parser.take, TokenStream.source_current, TokenStream.source_advance,
    sound.now.current_stream, ← same]
  rfl

/-- With a cursor and on the tokens ahead of it, at a depth. -/
def following (ended : (TokenStream.ofTokens tokens).Ended) (depth : Nat) :
    Correspondence (Recorded Cursor) TokenStream where
  node := id
  place := id
  holds := Follows tokens depth
  branch := branch_map_id
  named := bareName?_id
  value := Simulates.value
  bind := Simulates.bind
  peek := Simulates.ask (fun r => (current r).kind) TokenStream.kind fun _ holds =>
    holds.1.now.kind_stream
  peekPair first second := by
    refine Simulates.ask (fun r => (current r).kind == first && nextKind? r == some second)
      (fun s : TokenStream => s.kind == first && s.nextKind? == some second) fun r holds => ?_
    rw [holds.1.now.kind_stream, holds.1.now.nextKind?_stream]
    rfl
  offset := .look (fun _ => rfl) fun r ⟨sound, _⟩ => by
    rw [Parser.offset, TokenStream.source_current, sound.now.current_stream]
    rfl
  take := Follows.take ended
  failAt f cause start := .look (fun _ => rfl) fun _ _ => rfl
  unexpected f wanted := .fault f (fun t => .expected wanted t.shown) (fun _ => rfl) fun _ => rfl
  bounded rest r holds := by
    refine rest (later r) r.now.stream.later ?_ r holds
    rw [holds.1.now.later_stream]
    rfl

section Nesting

variable {f : α → β} {p : ParserOn (Recorded Cursor) α} {q : Parser β}

theorem Follows.nested (inner : Follows tokens (depth + 1) f p q) (room : depth < maxNesting) :
    Follows tokens depth f (Parser.nested p) q := by
  rintro r ⟨sound, level⟩
  have room : r.now.depth < maxNesting := level.symm ▸ room
  have entered : (enter r).Sound tokens :=
    sound.step ⟨sound.now.tokens_eq, sound.now.position_lt, room⟩ (Nat.le_refl _)
  obtain ⟨same, inside, below⟩ := inner (enter r) ⟨entered, congrArg (· + 1) level⟩
  rw [nested_of_room (s := r) room]
  refine ⟨same, inside.step ⟨inside.now.tokens_eq, inside.now.position_lt, ?_⟩ (Nat.le_refl _), ?_⟩
  · exact Nat.le_trans (Nat.sub_le ..) inside.now.depth_le
  · exact congrArg (· - 1) below

theorem Follows.nested_full (f : α → β) (p : ParserOn (Recorded Cursor) α) :
    Follows tokens maxNesting f (Parser.nested p) tooDeep := by
  intro r holds
  rw [nested_of_full (s := r) (Nat.le_of_eq holds.2.symm)]
  exact Follows.fault f (fun _ => .nestedTooDeeply) (fun _ => rfl) (fun _ => rfl) r holds

end Nesting

/-- Where the stream has lost as many levels as are open, the levels correspond. As long as there are
more rounds than levels left, it does not matter how many. -/
theorem counted_follows (ended : (TokenStream.ofTokens tokens).Ended) {levels rounds : Nat}
    (all : depth + levels = maxNesting) (enough : levels < rounds) :
    (following ended depth).Levels (counted rounds) (level levels) := by
  induction levels generalizing depth rounds with
  | zero =>
    obtain ⟨rounds, rfl⟩ : ∃ n, rounds = n + 1 := ⟨rounds - 1, by omega⟩
    obtain rfl : depth = maxNesting := all
    exact ⟨.nested_full _ _, .nested_full _ _, .nested_full _ _⟩
  | succ levels ih =>
    obtain ⟨rounds, rfl⟩ : ∃ n, rounds = n + 1 := ⟨rounds - 1, by omega⟩
    have room : depth < maxNesting := by omega
    have inner : (following ended (depth + 1)).Levels (counted rounds) (level levels) :=
      ih (by omega) (by omega)
    exact ⟨inner.disjunction.nested room, inner.denial.nested room, inner.sign.nested room⟩

end Parser

namespace StartSymbol

open RecordPipeline.Grammar

variable {tokens : List Token} {c : Cursor}

def reader (symbol : StartSymbol) : Parser Node :=
  symbol.rule (level maxNesting)

theorem reader_spells {symbol : StartSymbol} {s t : TokenStream} {tree : Node} (ended : s.Ended)
    (h : symbol.reader s = (.ok tree, t)) :
    s.toList = tree.tokens.filter (·.kind ≠ .endOfInput) ++ t.toList := by
  have whole {n : Nat} {f : Form} {nodes : List Node} (read : Reads n f s nodes t) :
      (Node.tokensOf nodes).filter (·.kind ≠ .endOfInput) = Node.tokensOf nodes :=
    List.filter_eq_self.2 fun token member => decide_eq_true (read.inside ended token member)
  have single {n : Nat} {f : Form} (read : Reads n f s [tree] t) :
      s.toList = tree.tokens.filter (·.kind ≠ .endOfInput) ++ t.toList := by
    have alone : Node.tokensOf [tree] = tree.tokens := by simp
    rw [← alone, whole read, read.spells]
  cases symbol with
  | query =>
    obtain ⟨content, rfl, kind, read⟩ := query_reads ended h
    have closing : [t.current].filter (·.kind ≠ .endOfInput) = [] := by
      simpa [TokenStream.kind] using kind
    simp only [Node.tokens_branch, Node.tokensOf_cons, Node.tokens_leaf, Node.tokensOf_nil,
      List.append_nil, List.filter_append, whole read, closing]
    exact read.spells
  | arguments =>
    obtain ⟨-, ⟨rfl, rfl⟩ | read⟩ := arguments_reads ended h
    · simp
    · exact single read
  | expression => exact single ((level_sound maxNesting).expression ended h)

/-- What a question does to a cursor: the answer is what is read from the tokens ahead, and the cursor
stays within the tokens, never goes back and is ready for the next question. -/
structure Answered (tokens : List Token) (symbol : StartSymbol) (c : Cursor) : Prop where
  reads : symbol.reader c.stream = ((symbol.parser c).1, (symbol.parser c).2.stream)
  ready : (symbol.parser c).2.Ready tokens
  position_le : c.position ≤ (symbol.parser c).2.position
  within : ∀ passed ∈ symbol.visited c, passed.Within tokens
  forward : (symbol.visited c).Pairwise fun earlier later => earlier.position ≤ later.position

theorem rule_follows (ended : (TokenStream.ofTokens tokens).Ended) (symbol : StartSymbol)
    {rounds : Nat} (enough : maxNesting < rounds) :
    Follows tokens 0 id (symbol.rule (counted rounds)) symbol.reader :=
  rule_holds (counted_follows ended (Nat.zero_add maxNesting) enough) symbol

theorem answered_of_ready (ended : (TokenStream.ofTokens tokens).Ended) (ready : c.Ready tokens)
    (symbol : StartSymbol) : symbol.Answered tokens c := by
  obtain ⟨same, sound, level⟩ :=
    symbol.rule_follows ended (Nat.lt_succ_self maxNesting) (Recorded.mk c [])
      ⟨.start ready.toWithin, ready.closed⟩
  rw [Except.map_id] at same
  have run := symbol.parser_recorded (Recorded.mk c [])
  refine ⟨?_, ?_, ?_, fun passed member => ?_, ?_⟩
  · rw [run]
    exact same
  · rw [run]
    exact ⟨sound.now, level⟩
  · rw [run]
    exact sound.position_le c ((symbol.suffix_history c).mem (List.mem_singleton_self c))
  · exact sound.within passed (List.mem_reverse.1 member)
  · exact List.pairwise_reverse.2 sound.forward

end StartSymbol

namespace Cursor

variable {tokens : List Token} {c : Cursor}

theorem ready_start {source : String} (read : tokenize source = .ok tokens) :
    (start tokens).Ready tokens := by
  refine ⟨⟨rfl, ?_, Nat.zero_le _⟩, rfl⟩
  rw [← (ended_of_tokenize read).2]
  exact Nat.zero_lt_succ _

theorem Ready.after (ended : (TokenStream.ofTokens tokens).Ended) (ready : c.Ready tokens)
    (asked : List StartSymbol) : (c.after asked).Ready tokens := by
  induction asked generalizing c with
  | nil => exact ready
  | cons symbol later ih => exact ih (symbol.answered_of_ready ended ready).ready

theorem Ready.tree_tokens (ended : (TokenStream.ofTokens tokens).Ended) (ready : c.Ready tokens)
    {symbol : StartSymbol} {tree : Node} (answer : (symbol.parser c).1 = .ok tree) :
    tree.tokens.filter (·.kind ≠ .endOfInput) =
      (tokens.drop c.position).take ((symbol.parser c).2.position - c.position) := by
  have answered := symbol.answered_of_ready ended ready
  have spelled : c.stream.toList = _ :=
    StartSymbol.reader_spells (ready.ended_stream ended) (answer ▸ answered.reads)
  rw [ready.toList_stream, answered.ready.toList_stream] at spelled
  have forward := answered.position_le
  have inside := answered.ready.position_lt
  have size := congrArg List.length spelled
  simp only [List.length_drop, List.length_append] at size
  rw [spelled, List.take_left' (by omega)]

end Cursor

/-- Whatever was asked before and whether or not it could be read, a cursor on the tokens of a text has
no level open between two questions. Its position never decreases and is always that of a token, which
is the current one, in the middle of a run too; and a tree that was read has the tokens between the
positions before and after. -/
theorem Cursor.sound_between_questions {source : String} {tokens : List Token}
    (read : tokenize source = .ok tokens) (asked : List StartSymbol) (symbol : StartSymbol) :
    let before := (Cursor.start tokens).after asked
    let after := (symbol.parser before).2
    before.depth = 0 ∧ after.depth = 0 ∧
      before.position ≤ after.position ∧ after.position ≤ tokens.length - 1 ∧
      (symbol.visited before).head? = some before ∧
      (symbol.visited before).getLast? = some after ∧
      (∀ c ∈ symbol.visited before, c.tokens = tokens ∧ c.position ≤ tokens.length - 1 ∧
        tokens[c.position]? = some c.current ∧ c.depth ≤ maxNesting) ∧
      (symbol.visited before).Pairwise (fun earlier later => earlier.position ≤ later.position) ∧
      ∀ tree, (symbol.parser before).1 = .ok tree →
        tree.tokens.filter (·.kind ≠ .endOfInput) =
          (tokens.drop before.position).take (after.position - before.position) := by
  intro before after
  have ended := (ended_of_tokenize read).1
  have ready : before.Ready tokens := (Cursor.ready_start read).after ended asked
  have answered := symbol.answered_of_ready ended ready
  refine ⟨ready.closed, answered.ready.closed, answered.position_le,
    Nat.le_sub_one_of_lt answered.ready.position_lt, symbol.head?_visited before,
    symbol.getLast?_visited before, fun c member => ?_, answered.forward,
    fun tree answer => ready.tree_tokens ended answer⟩
  have inside := answered.within c member
  exact ⟨inside.tokens_eq, Nat.le_sub_one_of_lt inside.position_lt, inside.getElem?_position,
    inside.depth_le⟩

/-- Behind a query that cannot be read to the end, an expression is read from where that stopped. -/
theorem Cursor.sound_between_questions_resumed :
    let tokens : List Token := [⟨.name, "x", 0⟩, ⟨.name, "y", 2⟩, ⟨.endOfInput, "", 3⟩]
    let before := (Cursor.start tokens).after [.query]
    let after := (StartSymbol.expression.parser before).2
    tokenize "x y" = .ok tokens ∧
      (StartSymbol.query.parser (Cursor.start tokens)).1.toOption.isNone ∧
      before.depth = 0 ∧ after.depth = 0 ∧ before.position = 1 ∧ after.position = 2 ∧
      (∀ c ∈ StartSymbol.expression.visited before,
        c.tokens = tokens ∧ c.position ≤ 2 ∧ tokens[c.position]? = some c.current ∧
          c.depth ≤ maxNesting) ∧
      ∃ tree, (StartSymbol.expression.parser before).1 = .ok tree ∧
        tree.tokens.filter (·.kind ≠ .endOfInput) = [⟨.name, "y", 2⟩] := by
  have read : tokenize "x y" =
      .ok [⟨.name, "x", 0⟩, ⟨.name, "y", 2⟩, ⟨.endOfInput, "", 3⟩] := by rfl
  obtain ⟨closed, closedAfter, -, -, -, -, within, -, between⟩ :=
    Cursor.sound_between_questions read [.query] .expression
  exact ⟨read, by rfl, closed, closedAfter, by rfl, by rfl, within, _, by rfl, between _ (by rfl)⟩

end RecordPipeline
