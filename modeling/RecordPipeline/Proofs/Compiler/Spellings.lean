import RecordPipeline.Proofs.Compiler.Inference
import RecordPipeline.Proofs.Lexing.Subtrees

/-!
Kinds from spellings. A token tree keeps the spelling of a token and drops its kind, and the compiler
takes names, comparisons and the five symbols that it splits at from the spelling again. For tokens of
any text that is no guess: each is what it is spelled as, whether the text could be read up to its end
or the scanner went on behind a fault.
-/

namespace RecordPipeline

open RecordPipeline.Compiler

structure SpelledAsKind (t : Token) : Prop where
  name : isName t.text = true ↔ t.kind = .name
  relational : t.text ∈ relationalTexts ↔ t.kind.isRelational = true
  openParen : t.text = "(" ↔ t.kind = .openParen
  openBrace : t.text = "\x7b" ↔ t.kind = .openBrace
  openBracket : t.text = "[" ↔ t.kind = .openBracket
  dot : t.text = "." ↔ t.kind = .dot
  comma : t.text = "," ↔ t.kind = .comma

theorem scan_symbol {kind : TokenKind} {c : Char} (symbol : kind.symbol? = some c) :
    scan [c] = .token kind [c] [] := by
  cases kind <;> cases symbol <;> rfl

namespace Lexeme

variable {kind : TokenKind} {text : List Char}

theorem eq_symbol_iff (h : Lexeme kind text) {other : TokenKind} {c : Char}
    (symbol : other.symbol? = some c) : text = [c] ↔ kind = other := by
  constructor
  · rintro rfl
    exact h.kind_unique (scan_symbol symbol)
  · rintro rfl
    exact h.text_of_symbol symbol

end Lexeme

theorem spelledAsKind_of_lexeme {t : Token} (lexeme : Lexeme t.kind t.text.toList) :
    SpelledAsKind t := by
  have symbol {kind : TokenKind} {c : Char} (symbol : kind.symbol? = some c) {text : String}
      (same : text.toList = [c]) : t.text = text ↔ t.kind = kind := by
    rw [← lexeme.eq_symbol_iff symbol, ← same, String.toList_inj]
  have named := lexeme.isName
  have compares := lexeme.contains_relationalTexts
  have spelled := lexeme.eq_name_of_isName
  rw [String.ofList_toList] at named compares spelled
  refine ⟨⟨spelled, named⟩, ?_, symbol rfl rfl, symbol rfl rfl, symbol rfl rfl, symbol rfl rfl,
    symbol rfl rfl⟩
  rw [← compares, List.contains_iff_mem]

theorem spelledAsKind_of_ending {t : Token} (kind : t.kind = .endOfInput) (text : t.text = "") :
    SpelledAsKind t := by
  obtain ⟨_, _, offset⟩ := t
  subst kind text
  constructor <;> simp [isName, relationalTexts, TokenKind.isRelational]

namespace Scanner

variable {s : Scanner}

theorem spelledAsKind_of_next {t : Token} {later : Scanner} (h : s.next = (.ok t, later)) :
    SpelledAsKind t := by
  obtain ⟨-, -, ⟨kind, text, -⟩ | ⟨lexeme, -⟩⟩ := next_ok h
  · exact spelledAsKind_of_ending kind text
  · exact spelledAsKind_of_lexeme lexeme

theorem spelledAsKind_of_readings {count : Nat} {t : Token} (h : .ok t ∈ s.readings count) :
    SpelledAsKind t := by
  induction count generalizing s with
  | zero => cases h
  | succ count ih =>
    rw [readings, List.mem_cons] at h
    rcases h with first | more
    · exact spelledAsKind_of_next (Prod.ext first.symm rfl)
    · exact ih more

theorem mem_readings_of_tokensWithin {bound : Nat} {tokens : List Token}
    (h : s.tokensWithin bound = .ok tokens) :
    ∀ t ∈ tokens, .ok t ∈ s.readings tokens.length := by
  induction bound generalizing s tokens with
  | zero =>
    cases h
    simp
  | succ bound ih =>
    rw [tokensWithin] at h
    split at h
    · cases h
    · rename_i token later found
      have first : .ok token ∈ s.readings 1 := by
        rw [readings, found]
        exact List.mem_cons_self
      split at h
      · cases h
        simpa using first
      · obtain ⟨more, read, rfl⟩ := except_map_ok.1 h
        intro t member
        rw [List.length_cons, readings, found]
        rcases List.mem_cons.1 member with rfl | member
        · exact List.mem_cons_self
        · exact List.mem_cons_of_mem _ (ih read t member)

end Scanner

/-- Every token that can be had from a text, by asking for tokens any number of times or by reading the
whole text at once, is of the kind that its spelling says. -/
theorem spelling_tells_kind (source : String) :
    (∀ count t, .ok t ∈ (Scanner.start source).readings count → SpelledAsKind t) ∧
      ∀ tokens, tokenize source = .ok tokens → ∀ t ∈ tokens, SpelledAsKind t :=
  ⟨fun _ _ => Scanner.spelledAsKind_of_readings, fun _ read t member =>
    Scanner.spelledAsKind_of_readings (Scanner.mem_readings_of_tokensWithin read t member)⟩

/-- A parenthesis behind a fault, and one in quotes. -/
theorem spelling_tells_kind_parens :
    ((Scanner.start "1a(").readings 3 = [.error ⟨.malformedNumber "1", 0⟩, .ok ⟨.name, "a", 1⟩,
        .ok ⟨.openParen, "(", 2⟩] ∧ SpelledAsKind ⟨.openParen, "(", 2⟩) ∧
      tokenize "in '('" = .ok [⟨.inWord, "in", 0⟩, ⟨.string, "'('", 3⟩, ⟨.endOfInput, "", 6⟩] ∧
      SpelledAsKind ⟨.inWord, "in", 0⟩ ∧ SpelledAsKind ⟨.string, "'('", 3⟩ := by
  have readings : (Scanner.start "1a(").readings 3 = [.error ⟨.malformedNumber "1", 0⟩,
      .ok ⟨.name, "a", 1⟩, .ok ⟨.openParen, "(", 2⟩] := by cbv
  have read : tokenize "in '('" =
      .ok [⟨.inWord, "in", 0⟩, ⟨.string, "'('", 3⟩, ⟨.endOfInput, "", 6⟩] := by cbv
  have tells := (spelling_tells_kind "in '('").2 _ read
  exact ⟨⟨readings, (spelling_tells_kind "1a(").1 3 _ (by simp [readings])⟩, read,
    tells _ (by simp), tells _ (by simp)⟩

end RecordPipeline
