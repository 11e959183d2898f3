import RecordPipeline.Proofs.Grammar
import RecordPipeline.Proofs.Grammar.Steps

/-!
What the parser gives back is a tree of the grammar, and the tree spells the tokens between where
the parser started and where it stopped. `Reads` has one lemma for each way to build a form, so each
rule of the parser is followed by the rule of the grammar that it implements.
-/

namespace RecordPipeline.Grammar

open RecordPipeline.TokenStream RecordPipeline.Parser

variable {n : Nat} {f g : Form} {s t u : TokenStream} {front back nodes : List Node}

/-- Between two places of a stream stand trees of the form. -/
structure Reads (n : Nat) (f : Form) (s : TokenStream) (nodes : List Node) (t : TokenStream) :
    Prop where
  parses : Parses n f nodes
  spells : s.toList = Node.tokensOf nodes ++ t.toList
  ended : t.Ended

namespace Reads

theorem inside (h : Reads n f s nodes t) (ended : s.Ended) :
    ∀ token ∈ Node.tokensOf nodes, token.kind ≠ .endOfInput := by
  obtain ⟨body, last, spelled, -, bodyKinds⟩ := ended
  obtain ⟨rest, final, remaining, -, -⟩ := h.ended
  have both : body ++ [last] = (Node.tokensOf nodes ++ rest) ++ [final] := by
    rw [← spelled, h.spells, remaining, List.append_assoc]
  intro token member
  refine bodyKinds token ?_
  rw [List.append_inj_left' both rfl]
  exact List.mem_append_left rest member

theorem convert (h : Reads n f s nodes t)
    (map : ∀ {nodes}, Parses n f nodes → Parses n g nodes) : Reads n g s nodes t :=
  ⟨map h.parses, h.spells, h.ended⟩

theorem take {kinds : List TokenKind} (ended : s.Ended) (member : s.kind ∈ kinds)
    (notEnd : TokenKind.endOfInput ∉ kinds) :
    Reads n (.one kinds) s [.leaf s.current] s.advance := by
  have inside : s.kind ≠ .endOfInput := by
    intro same
    exact notEnd (same ▸ member)
  obtain ⟨spelled, after⟩ := ended.advance inside
  exact ⟨.one member, by simpa using spelled, after⟩

theorem both (first : Reads n f s front t) (second : Reads n g t back u) :
    Reads n (.both f g) s (front ++ back) u := by
  refine ⟨.both first.parses second.parses, ?_, second.ended⟩
  rw [first.spells, second.spells, Node.tokensOf_append, List.append_assoc]

theorem branch {rule : Rule} (h : Reads n f s nodes t) :
    Reads n (.branch rule f) s [.branch rule nodes] t :=
  ⟨.branch h.parses, by simpa using h.spells, h.ended⟩

theorem collapse {rule : Rule} (h : Reads n f s nodes t) :
    Reads n (.collapse rule f) s [.collapse rule nodes] t :=
  ⟨.collapse h.parses, by simpa using h.spells, h.ended⟩

theorem symbol {name : Symbol} (h : Reads n name.rule s nodes t) :
    Reads n (.symbol name) s nodes t :=
  h.convert .symbol

theorem deeper (h : Reads n f s nodes t) : Reads (n + 1) (.deeper f) s nodes t :=
  ⟨.deeper h.parses, h.spells, h.ended⟩

theorem nothing (ended : s.Ended) (empty : Parses n f []) : Reads n f s [] s :=
  ⟨empty, by simp, ended⟩

theorem again (first : Reads n f s front t) (second : Reads n (.many f) t back u) :
    Reads n (.many f) s (front ++ back) u :=
  ⟨.again first.parses second.parses, (first.both second).spells, second.ended⟩

theorem again_both (first : Reads n f s front t) (second : Reads n (.both (.many f) g) t back u) :
    Reads n (.both (.many f) g) s (front ++ back) u := by
  refine ⟨?_, (first.both second).spells, second.ended⟩
  obtain ⟨more, last, hMore, hLast, rfl⟩ := parses_both.1 second.parses
  rw [← List.append_assoc]
  exact .both (.again first.parses hMore) hLast

end Reads

def Sound (p : Parser Node) (n : Nat) (f : Form) : Prop :=
  ∀ ⦃s node t⦄, s.Ended → p s = (.ok node, t) → Reads n f s [node] t

def SoundList (p : Parser (List Node)) (n : Nat) (f : Form) : Prop :=
  ∀ ⦃s nodes t⦄, s.Ended → p s = (.ok nodes, t) → Reads n f s nodes t

def SoundAt (opening : TokenKind) (p : Parser Node) (n : Nat) (f : Form) : Prop :=
  ∀ ⦃s node t⦄, s.Ended → s.kind = opening → p s = (.ok node, t) → Reads n f s [node] t

theorem require_reads (n : Nat) {kind : TokenKind} {wanted : String} {node : Node}
    (ended : s.Ended) (notEnd : kind ≠ .endOfInput) (h : require kind wanted s = (.ok node, t)) :
    Reads n (.one [kind]) s [node] t := by
  obtain ⟨same, rfl, rfl⟩ := require_ok h
  exact .take ended (by simp [same]) (by simp [notEnd.symm])

/-- An operator of the tier, or nothing and no step. -/
structure SoundOperator (operator : Parser (Option Node)) (n : Nat) (tier : Tier) : Prop where
  none : ∀ ⦃s t⦄, operator s = (.ok none, t) → t = s
  some : ∀ ⦃s symbol t⦄, s.Ended → operator s = (.ok (some symbol), t) →
    Reads n tier.operator s [symbol] t

theorem chainMore_sound {tier : Tier} {operator : Parser (Option Node)} {operand : Parser Node}
    (operators : SoundOperator operator n tier)
    (operands : Sound operand n (.symbol tier.operand)) (bound : List Token) :
    SoundList (chainMore operator operand bound) n tier.more := by
  induction bound with
  | nil =>
    intro s nodes t ended h
    obtain ⟨rfl, rfl⟩ := pure_ok.1 h
    exact .nothing ended .done
  | cons _ bound ih =>
    intro s nodes t ended h
    rw [chainMore] at h
    obtain ⟨symbol?, afterSymbol, hSymbol, h⟩ := bind_ok.1 h
    cases symbol? with
    | none =>
      have same := operators.none hSymbol
      obtain ⟨rfl, rfl⟩ := pure_ok.1 h
      rw [same]
      exact .nothing ended .done
    | some symbol =>
      have readSymbol := operators.some ended hSymbol
      obtain ⟨right, afterRight, hRight, h⟩ := bind_ok.1 h
      have readRight := operands readSymbol.ended hRight
      obtain ⟨more, afterMore, hMore, h⟩ := bind_ok.1 h
      obtain ⟨rfl, rfl⟩ := pure_ok.1 h
      exact (readSymbol.both readRight).again (ih readRight.ended hMore)

theorem chain_sound {tier : Tier} {operator : Parser (Option Node)} {operand : Parser Node}
    (operators : SoundOperator operator n tier)
    (operands : Sound operand n (.symbol tier.operand)) :
    Sound (chain tier.rule operator operand) n (.symbol (.chain tier)) := by
  intro s node t ended h
  obtain ⟨first, afterFirst, hFirst, h⟩ := bind_ok.1 h
  have readFirst := operands ended hFirst
  rw [bounded_bind] at h
  obtain ⟨more, afterMore, hMore, h⟩ := bind_ok.1 h
  obtain ⟨rfl, rfl⟩ := pure_ok.1 h
  have readMore := chainMore_sound operators operands _ readFirst.ended hMore
  exact .symbol (readFirst.both readMore).collapse

theorem symbolAmong_sound (tier : Tier) (simple : tier.operator = .one tier.kinds)
    (inside : TokenKind.endOfInput ∉ tier.kinds) :
    SoundOperator (symbolAmong tier.kinds) n tier where
  none s t h := by
    rw [symbolAmong, peek_bind] at h
    split at h
    · cases h
    · exact (pure_ok.1 h).2.symm
  some s symbol t ended h := by
    rw [symbolAmong, peek_bind] at h
    split at h
    · obtain ⟨same, rfl⟩ := pure_ok.1 h
      cases same
      rw [simple]
      exact .take ended (List.contains_iff_mem.1 ‹_›) inside
    · cases (pure_ok.1 h).1

theorem peekPair_ok {first second : TokenKind} {answer : Bool}
    (h : peekPair first second s = (.ok answer, t)) :
    t = s ∧ (answer = true → s.kind = first ∧ s.nextKind? = some second) := by
  cases h
  exact ⟨rfl, by simp [kind]⟩

theorem kind_advance {kind : TokenKind} (inside : s.kind ≠ .endOfInput)
    (next : s.nextKind? = some kind) : s.advance.kind = kind := by
  obtain ⟨current, later⟩ := s
  cases later with
  | nil => simp [nextKind?] at next
  | cons token later =>
    simp only [nextKind?, List.head?_cons, Option.map_some, Option.some.injEq] at next
    rw [advance, if_neg inside]
    exact next

theorem comparisonSymbol_sound : SoundOperator comparisonSymbol n .comparison where
  none s t h := by
    rw [comparisonSymbol, peek_bind] at h
    split at h
    · cases h
    · obtain ⟨answer, after, pair, h⟩ := bind_ok.1 h
      obtain ⟨same, -⟩ := peekPair_ok pair
      rw [same] at h
      split at h
      · cases h
      · exact (pure_ok.1 h).2.symm
  some s symbol t ended h := by
    rw [comparisonSymbol, peek_bind] at h
    split at h
    · have known : ∀ kind : TokenKind, (kind.isRelational || kind == .inWord) = true →
          kind ∈ Tier.comparison.kinds := by
        intro kind
        cases kind <;> decide
      obtain ⟨same, rfl⟩ := pure_ok.1 h
      cases same
      exact (Reads.take ended (known _ ‹_›) (by decide)).convert .first
    · obtain ⟨answer, after, pair, h⟩ := bind_ok.1 h
      obtain ⟨still, both⟩ := peekPair_ok pair
      rw [still] at h
      split at h
      · obtain ⟨isNot, isIn⟩ := both ‹_›
        obtain ⟨same, rfl⟩ := pure_ok.1 h
        cases same
        have inside : s.kind ≠ .endOfInput := by simp [isNot]
        have readNot : Reads n (.one [.notWord]) s [.leaf s.current] s.advance :=
          .take ended (by simp [isNot]) (by decide)
        have readIn : Reads n (.one [.inWord]) s.advance [.leaf s.advance.current]
            s.advance.advance :=
          .take readNot.ended (by simp [kind_advance inside isIn]) (by decide)
        exact (readNot.both readIn).branch.convert .second
      · cases (pure_ok.1 h).1

theorem itemsMore_sound {closing : TokenKind} {item : Parser Node} (items : Sound item n f)
    (bound : List Token) :
    SoundList (itemsMore closing item bound) n
      (.both (.many (.both (.one [.comma]) f)) (.optional (.one [.comma]))) := by
  have nothing : Parses n
      (.both (.many (.both (.one [.comma]) f)) (.optional (.one [.comma]))) [] :=
    .both .done .absent
  induction bound with
  | nil =>
    intro s nodes t ended h
    obtain ⟨rfl, rfl⟩ := pure_ok.1 h
    exact .nothing ended nothing
  | cons _ bound ih =>
    intro s nodes t ended h
    rw [itemsMore, peek_bind] at h
    split at h
    · have readComma : Reads n (.one [.comma]) s [.leaf s.current] s.advance :=
        .take ended (by simp [*]) (by decide)
      rw [take_bind, peek_bind] at h
      split at h
      · obtain ⟨rfl, rfl⟩ := pure_ok.1 h
        exact readComma.convert fun comma => .both .done (.present comma)
      · obtain ⟨next, afterNext, hNext, h⟩ := bind_ok.1 h
        have readNext := items readComma.ended hNext
        obtain ⟨more, afterMore, hMore, h⟩ := bind_ok.1 h
        obtain ⟨rfl, rfl⟩ := pure_ok.1 h
        exact (readComma.both readNext).again_both (ih readNext.ended hMore)
    · obtain ⟨rfl, rfl⟩ := pure_ok.1 h
      exact .nothing ended nothing

theorem items_sound {closing : TokenKind} {item : Parser Node} (items : Sound item n f) :
    SoundList (Parser.items closing item) n (Form.commaList f) := by
  intro s nodes t ended h
  obtain ⟨first, afterFirst, hFirst, h⟩ := bind_ok.1 h
  have readFirst := items ended hFirst
  rw [bounded_bind] at h
  obtain ⟨more, afterMore, hMore, h⟩ := bind_ok.1 h
  obtain ⟨rfl, rfl⟩ := pure_ok.1 h
  exact readFirst.both (itemsMore_sound items _ readFirst.ended hMore)

theorem attributeName_sound (n : Nat) : Sound attributeName n (.symbol .attributeName) := by
  intro s node t ended h
  rw [attributeName, peek_bind] at h
  split at h
  · cases h
    exact .symbol (.take ended (List.contains_iff_mem.1 ‹_›) (by decide))
  · cases h

theorem name_of_enclosed {rule : Rule} {opening closing : TokenKind} {node : Node}
    (h : Parses n (Form.enclosed rule opening closing f) [node]) : node.bareName? = none := by
  obtain ⟨first, content, last, -, -, -, same⟩ := parses_enclosed.1 h
  cases same
  cases content <;> simp [Node.bareName?]

theorem name_of_expression {node : Node} {text : String}
    (h : Parses n (.symbol .expression) [node]) (name : node.bareName? = some text) :
    ∃ t, t.kind = .name ∧ node = .branch .access [.leaf t] := by
  obtain ⟨m, -, access⟩ := access_of_expression h fun rule first second more _ same => by
    simp [same, Node.bareName?] at name
  obtain ⟨front, trailers, hAtom, -, same⟩ := parses_access.1 access
  obtain ⟨atom, rfl⟩ := parses_single (by simp) hAtom
  cases same
  cases trailers with
  | cons trailer trailers => simp [Node.bareName?] at name
  | nil =>
    simp only [List.append_nil, Node.bareName?] at name
    rcases parses_atom.1 hAtom with ⟨t, -, same⟩ | ⟨dot, word, -, -, same⟩ | enclosed | enclosed |
      enclosed
    · cases same
      refine ⟨t, ?_, rfl⟩
      rw [Node.bareName?] at name
      split at name
      · assumption
      · cases name
    · cases same
      simp [Node.bareName?] at name
    all_goals
      rw [name_of_enclosed enclosed] at name
      cases name

structure SoundLevel (inner : Level) (n : Nat) : Prop where
  expression : Sound inner.expression n (.symbol .expression)
  negation : Sound inner.negation n (.deeper (.symbol .negation))
  signed : Sound inner.signed n (.deeper (.symbol .signed))

section Rules

variable {inner : Level} (sound : SoundLevel inner n)
include sound

theorem argument_sound : Sound (argument inner) n (.symbol .argument) := by
  intro s node t ended h
  have skipOffset {β : Type} (g : Nat → Parser β) (s : TokenStream) :
      (offset >>= g) s = g s.current.offset s := rfl
  rw [argument, skipOffset] at h
  obtain ⟨value, afterValue, hValue, h⟩ := bind_ok.1 h
  have readValue := sound.expression ended hValue
  rw [peek_bind] at h
  split at h
  · split at h
    · cases h
    · obtain ⟨text, name⟩ : ∃ text, value.bareName? = some text := by
        rename_i named
        exact Option.ne_none_iff_exists'.1 (by simpa using named)
      obtain ⟨token, kind, rfl⟩ := name_of_expression readValue.parses name
      have readSign : Reads n (.one [.assign]) afterValue [.leaf afterValue.current]
          afterValue.advance :=
        .take readValue.ended (by simp [*]) (by decide)
      rw [take_bind] at h
      obtain ⟨bound, afterBound, hBound, h⟩ := bind_ok.1 h
      obtain ⟨rfl, rfl⟩ := pure_ok.1 h
      have readBound := sound.expression readSign.ended hBound
      have whole : Reads n (.branch .binding _) s _ _ :=
        (readValue.both (readSign.both readBound)).branch
      refine ⟨parses_argument.2 (.inr ⟨token, afterValue.current, bound, kind, ‹_›,
        readBound.parses, rfl⟩), whole.spells, whole.ended⟩
  · obtain ⟨rfl, rfl⟩ := pure_ok.1 h
    exact readValue.convert fun parses => parses_argument.2 (.inl parses)

theorem argumentList_sound (closing : TokenKind) :
    Sound (argumentList inner closing) n (.symbol .arguments) := by
  intro s node t ended h
  obtain ⟨content, after, hContent, h⟩ := bind_ok.1 h
  obtain ⟨rfl, rfl⟩ := pure_ok.1 h
  exact .symbol (items_sound (argument_sound sound) ended hContent).branch

theorem callTrailer_sound : SoundAt .openParen (callTrailer inner) n
    (Form.enclosed .trailer .openParen .closeParen (.symbol .arguments)) := by
  intro s node t ended opens h
  have readOpening : Reads n (.one [.openParen]) s [.leaf s.current] s.advance :=
    .take ended (by simp [opens]) (by decide)
  rw [callTrailer, take_bind, peek_bind] at h
  split at h
  · rw [take_bind] at h
    obtain ⟨rfl, rfl⟩ := pure_ok.1 h
    have readClosing : Reads n (.one [.closeParen]) s.advance [.leaf s.advance.current]
        s.advance.advance :=
      .take readOpening.ended (by simp [*]) (by decide)
    exact (readOpening.both ((Reads.nothing readOpening.ended .absent).both readClosing)).branch
  · obtain ⟨arguments, afterArguments, hArguments, h⟩ := bind_ok.1 h
    have readArguments := argumentList_sound sound _ readOpening.ended hArguments
    obtain ⟨closing, afterClosing, hClosing, h⟩ := bind_ok.1 h
    obtain ⟨rfl, rfl⟩ := pure_ok.1 h
    have readClosing := require_reads n readArguments.ended (by decide) hClosing
    exact (readOpening.both ((readArguments.convert .present).both readClosing)).branch

theorem indexTrailer_sound : SoundAt .openBracket (indexTrailer inner) n (.symbol .trailer) := by
  intro s node t ended opens h
  have readOpening : Reads n (.one [.openBracket]) s [.leaf s.current] s.advance :=
    .take ended (by simp [opens]) (by decide)
  rw [indexTrailer, take_bind] at h
  obtain ⟨index, afterIndex, hIndex, h⟩ := bind_ok.1 h
  have readIndex := sound.expression readOpening.ended hIndex
  obtain ⟨closing, afterClosing, hClosing, h⟩ := bind_ok.1 h
  obtain ⟨rfl, rfl⟩ := pure_ok.1 h
  have readClosing := require_reads n readIndex.ended (by decide) hClosing
  exact .symbol ((readOpening.both (readIndex.both readClosing)).branch.convert
    fun parses => .second (.first parses))

omit sound in
theorem attributeTrailer_sound : SoundAt .dot attributeTrailer n (.symbol .trailer) := by
  intro s node t ended dot h
  have readDot : Reads n (.one [.dot]) s [.leaf s.current] s.advance :=
    .take ended (by simp [dot]) (by decide)
  rw [attributeTrailer, take_bind] at h
  obtain ⟨name, afterName, hName, h⟩ := bind_ok.1 h
  obtain ⟨rfl, rfl⟩ := pure_ok.1 h
  have readName := attributeName_sound n readDot.ended hName
  exact .symbol ((readDot.both readName).branch.convert fun parses => .second (.second parses))

theorem trailers_sound (bound : List Token) :
    SoundList (trailers inner bound) n (.many (.symbol .trailer)) := by
  induction bound with
  | nil =>
    intro s nodes t ended h
    obtain ⟨rfl, rfl⟩ := pure_ok.1 h
    exact .nothing ended .done
  | cons _ bound ih =>
    intro s nodes t ended h
    have one {p : Parser Node} (read : ∀ {node u}, p s = (.ok node, u) →
        Reads n (.symbol .trailer) s [node] u)
        (h : (do return (← p) :: (← trailers inner bound)) s = (.ok nodes, t)) :
        Reads n (.many (.symbol .trailer)) s nodes t := by
      obtain ⟨trailer, after, hTrailer, h⟩ := bind_ok.1 h
      obtain ⟨more, afterMore, hMore, h⟩ := bind_ok.1 h
      obtain ⟨rfl, rfl⟩ := pure_ok.1 h
      have readTrailer := read hTrailer
      exact readTrailer.again (ih readTrailer.ended hMore)
    rw [trailers, peek_bind] at h
    cases kind : s.kind with
    | openParen =>
      rw [kind] at h
      exact one (fun call => .symbol ((callTrailer_sound sound ended kind call).convert .first)) h
    | openBracket =>
      rw [kind] at h
      exact one (indexTrailer_sound sound ended kind) h
    | dot =>
      rw [kind] at h
      exact one (attributeTrailer_sound ended kind) h
    | _ =>
      rw [kind] at h
      obtain ⟨rfl, rfl⟩ := pure_ok.1 h
      exact .nothing ended .done

theorem delimited_sound {rule : Rule} {opening closing : TokenKind} {wanted : String}
    (notFirst : opening ≠ .endOfInput) (notLast : closing ≠ .endOfInput) :
    SoundAt opening (delimited inner rule closing wanted) n
      (Form.enclosed rule opening closing Form.content) := by
  intro s node t ended opens h
  have readOpening : Reads n (.one [opening]) s [.leaf s.current] s.advance :=
    .take ended (by simp [opens]) (by simp [notFirst.symm])
  rw [delimited, take_bind, peek_bind] at h
  split at h
  · rw [take_bind] at h
    obtain ⟨rfl, rfl⟩ := pure_ok.1 h
    have readClosing : Reads n (.one [closing]) s.advance [.leaf s.advance.current]
        s.advance.advance :=
      .take readOpening.ended (by simp [*]) (by simp [notLast.symm])
    exact (readOpening.both ((Reads.nothing readOpening.ended .absent).both readClosing)).branch
  · obtain ⟨items, afterItems, hItems, h⟩ := bind_ok.1 h
    have readItems := items_sound sound.expression readOpening.ended hItems
    obtain ⟨last, afterLast, hLast, h⟩ := bind_ok.1 h
    obtain ⟨rfl, rfl⟩ := pure_ok.1 h
    have readLast := require_reads n readItems.ended notLast hLast
    have readContent : Reads n (.optional Form.content) s.advance [.collapse .sequence items]
        afterItems :=
      (Reads.collapse (.symbol readItems)).convert .present
    exact (readOpening.both (readContent.both readLast)).branch

theorem field_sound : SoundList (field inner) n Form.field := by
  intro s nodes t ended h
  obtain ⟨key, afterKey, hKey, h⟩ := bind_ok.1 h
  have readKey := sound.expression ended hKey
  obtain ⟨colon, afterColon, hColon, h⟩ := bind_ok.1 h
  have readColon := require_reads n readKey.ended (by decide) hColon
  obtain ⟨value, afterValue, hValue, h⟩ := bind_ok.1 h
  have readValue := sound.expression readColon.ended hValue
  obtain ⟨rfl, rfl⟩ := pure_ok.1 h
  exact readKey.both (readColon.both readValue)

theorem fieldsMore_sound (bound : List Token) :
    SoundList (fieldsMore inner bound) n
      (.both (.many (.both (.one [.comma]) Form.field)) (.optional (.one [.comma]))) := by
  have nothing : Parses n
      (.both (.many (.both (.one [.comma]) Form.field)) (.optional (.one [.comma]))) [] :=
    .both .done .absent
  induction bound with
  | nil =>
    intro s nodes t ended h
    obtain ⟨rfl, rfl⟩ := pure_ok.1 h
    exact .nothing ended nothing
  | cons _ bound ih =>
    intro s nodes t ended h
    rw [fieldsMore, peek_bind] at h
    split at h
    · have readComma : Reads n (.one [.comma]) s [.leaf s.current] s.advance :=
        .take ended (by simp [*]) (by decide)
      rw [take_bind, peek_bind] at h
      split at h
      · obtain ⟨rfl, rfl⟩ := pure_ok.1 h
        exact readComma.convert fun comma => .both .done (.present comma)
      · obtain ⟨next, afterNext, hNext, h⟩ := bind_ok.1 h
        have readNext := field_sound sound readComma.ended hNext
        obtain ⟨more, afterMore, hMore, h⟩ := bind_ok.1 h
        obtain ⟨rfl, rfl⟩ := pure_ok.1 h
        exact (readComma.both readNext).again_both (ih readNext.ended hMore)
    · obtain ⟨rfl, rfl⟩ := pure_ok.1 h
      exact .nothing ended nothing

theorem braces_sound : SoundAt .openBrace (braces inner) n
    (Form.enclosed .braces .openBrace .closeBrace (.symbol .fields)) := by
  intro s node t ended opens h
  have readOpening : Reads n (.one [.openBrace]) s [.leaf s.current] s.advance :=
    .take ended (by simp [opens]) (by decide)
  rw [braces, take_bind, peek_bind] at h
  split at h
  · rw [take_bind] at h
    obtain ⟨rfl, rfl⟩ := pure_ok.1 h
    have readClosing : Reads n (.one [.closeBrace]) s.advance [.leaf s.advance.current]
        s.advance.advance :=
      .take readOpening.ended (by simp [*]) (by decide)
    exact (readOpening.both ((Reads.nothing readOpening.ended .absent).both readClosing)).branch
  · obtain ⟨first, afterFirst, hFirst, h⟩ := bind_ok.1 h
    have readFirst := field_sound sound readOpening.ended hFirst
    rw [bounded_bind] at h
    obtain ⟨more, afterMore, hMore, h⟩ := bind_ok.1 h
    have readMore := fieldsMore_sound sound _ readFirst.ended hMore
    obtain ⟨closing, afterClosing, hClosing, h⟩ := bind_ok.1 h
    obtain ⟨rfl, rfl⟩ := pure_ok.1 h
    have readClosing := require_reads n readMore.ended (by decide) hClosing
    have readFields : Reads n (.symbol .fields) s.advance [.branch .fields (first ++ more)]
        afterMore :=
      .symbol (readFirst.both readMore).branch
    exact (readOpening.both ((readFields.convert .present).both readClosing)).branch

theorem atom_sound : Sound (atom inner) n (.symbol .atom) := by
  intro s node t ended h
  have simple {kind : TokenKind} (same : s.kind = kind) (member : kind ∈ Symbol.simpleAtoms)
      (h : take s = (.ok node, t)) : Reads n (.symbol .atom) s [node] t := by
    cases h
    exact .symbol ((Reads.take ended (same ▸ member) (by decide)).convert .first)
  rw [atom, peek_bind] at h
  cases kind : s.kind with
  | integer | float | string | trueWord | falseWord | nullWord | name =>
    rw [kind] at h
    exact simple kind (by decide) h
  | dot =>
    rw [kind] at h
    have readDot : Reads n (.one [.dot]) s [.leaf s.current] s.advance :=
      .take ended (by simp [kind]) (by decide)
    obtain ⟨dot, afterDot, hDot, h⟩ := bind_ok.1 h
    cases hDot
    obtain ⟨name, afterName, hName, h⟩ := bind_ok.1 h
    obtain ⟨rfl, rfl⟩ := pure_ok.1 h
    have readName := attributeName_sound n readDot.ended hName
    exact .symbol ((readDot.both readName).branch.convert fun parses => .second (.first parses))
  | openParen =>
    rw [kind] at h
    have read := delimited_sound sound (by decide) (by decide) ended kind h
    exact read.convert fun parses => parses_atom.2 (.inr (.inr (.inl parses)))
  | openBracket =>
    rw [kind] at h
    have read := delimited_sound sound (by decide) (by decide) ended kind h
    exact read.convert fun parses => parses_atom.2 (.inr (.inr (.inr (.inl parses))))
  | openBrace =>
    rw [kind] at h
    have read := braces_sound sound ended kind h
    exact read.convert fun parses => parses_atom.2 (.inr (.inr (.inr (.inr parses))))
  | _ =>
    rw [kind] at h
    cases h

theorem access_sound : Sound (access inner) n (.symbol .access) := by
  intro s node t ended h
  obtain ⟨first, afterFirst, hFirst, h⟩ := bind_ok.1 h
  have readFirst := atom_sound sound ended hFirst
  rw [bounded_bind] at h
  obtain ⟨more, afterMore, hMore, h⟩ := bind_ok.1 h
  obtain ⟨rfl, rfl⟩ := pure_ok.1 h
  exact .symbol (readFirst.both (trailers_sound sound _ readFirst.ended hMore)).branch

theorem signed_sound : Sound (signed inner) n (.symbol .signed) := by
  intro s node t ended h
  rw [signed, peek_bind] at h
  split at h
  · have readSign : Reads n (.one [.minus, .plus]) s [.leaf s.current] s.advance :=
      .take ended (List.contains_iff_mem.1 ‹_›) (by decide)
    rw [take_bind] at h
    obtain ⟨operand, afterOperand, hOperand, h⟩ := bind_ok.1 h
    obtain ⟨rfl, rfl⟩ := pure_ok.1 h
    have readOperand := sound.signed readSign.ended hOperand
    exact .symbol ((readSign.both readOperand).branch.convert .first)
  · exact .symbol ((access_sound sound ended h).convert .second)

theorem product_sound : Sound (product inner) n (.symbol (.chain .product)) :=
  chain_sound (symbolAmong_sound .product rfl (by decide)) (signed_sound sound)

theorem sum_sound : Sound (sum inner) n (.symbol (.chain .sum)) :=
  chain_sound (symbolAmong_sound .sum rfl (by decide)) (product_sound sound)

theorem comparison_sound : Sound (comparison inner) n (.symbol (.chain .comparison)) :=
  chain_sound comparisonSymbol_sound (sum_sound sound)

theorem negation_sound : Sound (negation inner) n (.symbol .negation) := by
  intro s node t ended h
  rw [negation, peek_bind] at h
  split at h
  · have readNot : Reads n (.one [.notWord]) s [.leaf s.current] s.advance :=
      .take ended (by simp [*]) (by decide)
    rw [take_bind] at h
    obtain ⟨operand, afterOperand, hOperand, h⟩ := bind_ok.1 h
    obtain ⟨rfl, rfl⟩ := pure_ok.1 h
    have readOperand := sound.negation readNot.ended hOperand
    exact .symbol ((readNot.both readOperand).branch.convert .first)
  · exact .symbol ((comparison_sound sound ended h).convert .second)

theorem conjunction_sound : Sound (conjunction inner) n (.symbol (.chain .conjunction)) :=
  chain_sound (symbolAmong_sound .conjunction rfl (by decide)) (negation_sound sound)

theorem disjunction_sound : Sound (disjunction inner) n (.symbol (.chain .disjunction)) :=
  chain_sound (symbolAmong_sound .disjunction rfl (by decide)) (conjunction_sound sound)

end Rules

theorem level_sound (levels : Nat) : SoundLevel (level levels) levels := by
  induction levels with
  | zero =>
    have none {f : Form} : Sound tooDeep 0 f := by
      intro s node t _ h
      cases h
    exact ⟨none, none, none⟩
  | succ levels inner =>
    refine ⟨?_, ?_, ?_⟩
    · intro s node t ended h
      exact .symbol (disjunction_sound inner ended h).deeper
    · intro s node t ended h
      exact (negation_sound inner ended h).deeper
    · intro s node t ended h
      exact (signed_sound inner ended h).deeper

/-- A query is read to the end of the input, which closes the tree and stays the current token. -/
theorem query_reads {node : Node} (ended : s.Ended) (h : query s = (.ok node, t)) :
    ∃ content, node = .branch .query [.branch .sequence content, .leaf t.current] ∧
      t.kind = .endOfInput ∧
      Reads maxNesting (Form.commaList (.symbol .expression)) s content t := by
  obtain ⟨content, after, hContent, h⟩ := bind_ok.1 h
  have read := items_sound (level_sound maxNesting).expression ended hContent
  obtain ⟨last, afterLast, hLast, h⟩ := bind_ok.1 h
  obtain ⟨rfl, rfl⟩ := pure_ok.1 h
  obtain ⟨kind, rfl, rfl⟩ := require_ok hLast
  rw [advance_of_end kind]
  exact ⟨content, rfl, kind, read⟩

theorem query_sound {node : Node} (ended : s.Ended) (h : (query s).1 = .ok node) :
    Parses maxNesting (.symbol .query) [node] ∧ s.toList = node.tokens := by
  obtain ⟨t, h⟩ : ∃ t, query s = (.ok node, t) := ⟨(query s).2, by rw [← h]⟩
  obtain ⟨content, rfl, kind, read⟩ := query_reads ended h
  refine ⟨parses_query.2 ⟨content, t.current, read.parses, kind, rfl⟩, ?_⟩
  simp [read.spells, read.ended.last kind]

theorem arguments_reads {node : Node} (ended : s.Ended) (h : arguments s = (.ok node, t)) :
    t.kind = .endOfInput ∧ (node = .branch .arguments [] ∧ t = s ∨
      Reads maxNesting (.symbol .arguments) s [node] t) := by
  rw [arguments, argumentsOver, peek_bind] at h
  split at h
  · obtain ⟨rfl, rfl⟩ := pure_ok.1 h
    exact ⟨‹_›, .inl ⟨rfl, rfl⟩⟩
  · obtain ⟨content, after, hContent, h⟩ := bind_ok.1 h
    have read := argumentList_sound (level_sound maxNesting) .endOfInput ended hContent
    obtain ⟨last, afterLast, hLast, h⟩ := bind_ok.1 h
    obtain ⟨rfl, rfl⟩ := pure_ok.1 h
    obtain ⟨kind, -, rfl⟩ := require_ok hLast
    rw [advance_of_end kind]
    exact ⟨kind, .inr read⟩

theorem arguments_sound {node : Node} (ended : s.Ended) (h : (arguments s).1 = .ok node) :
    (node = .branch .arguments [] ∨ Parses maxNesting (.symbol .arguments) [node]) ∧
      ∃ last, last.kind = .endOfInput ∧ s.toList = node.tokens ++ [last] := by
  obtain ⟨t, h⟩ : ∃ t, arguments s = (.ok node, t) := ⟨(arguments s).2, by rw [← h]⟩
  obtain ⟨kind, ⟨rfl, rfl⟩ | read⟩ := arguments_reads ended h
  · exact ⟨.inl rfl, t.current, kind, by simp [ended.last kind]⟩
  · exact ⟨.inr read.parses, t.current, kind, by simp [read.spells, read.ended.last kind]⟩

end RecordPipeline.Grammar
