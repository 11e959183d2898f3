import RecordPipeline.Proofs.Grammar.Steps
import RecordPipeline.Proofs.Lexing

/-!
Texts that spell given tokens, with white space anywhere between them. Reading such a text gives the
tokens back, up to their places, and every text that can be read is of this kind.
-/

namespace RecordPipeline

open Text

/-- The characters of a token on their own. -/
structure Lexeme (kind : TokenKind) (text : List Char) : Prop where
  scans : scan text = .token kind text []
  starts : ∃ c cs, text = c :: cs ∧ isBlank c = false

/-- How a token of each kind may be spelled. -/
inductive Classified : TokenKind → List Char → Prop where
  | string {quote : Char} {text : List Char} (isQuote : (quote = '"' || quote = '\'') = true)
      (closed : text.getLast? = some quote) : Classified .string (quote :: text)
  | word {c : Char} {cs : List Char} (starts : startsName c = true)
      (all : ∀ d ∈ c :: cs, continuesName d = true) :
      Classified (.ofWord (String.ofList (c :: cs))) (c :: cs)
  | number {kind : TokenKind} {cs : List Char} (isNumber : kind = .integer ∨ kind = .float) :
      Classified kind (spanNumber false cs).text
  | symbol {kind : TokenKind} {c : Char} (single : TokenKind.ofSymbol c = some kind) :
      Classified kind [c]
  | pair {kind : TokenKind} {c : Char} (pair : TokenKind.ofPair c = some kind) :
      Classified kind [c, '=']

theorem classified_of_scan {c : Char} {cs text rest : List Char} {kind : TokenKind}
    (h : scan (c :: cs) = .token kind text rest) : Classified kind text := by
  rw [scan_cons] at h
  split at h
  · rename_i isQuote
    rw [scanString] at h
    split at h
    · rename_i span
      cases h
      exact .string isQuote (spanString_last span)
    · cases h
  · split at h
    · rename_i starts
      cases h
      rw [List.takeWhile_cons_of_pos (continuesName_of_startsName starts)]
      refine .word starts fun d member => ?_
      rw [← List.takeWhile_cons_of_pos (continuesName_of_startsName starts)] at member
      exact List.all_eq_true.1 List.all_takeWhile d member
    · split at h
      · have isNumber := (scanned_number ‹_› ‹_› ‹_› h).1
        rw [scanNumber] at h
        split at h
        · cases h
        · cases h
          exact .number isNumber
      · rcases (scanned_symbol ‹_› ‹_› ‹_› h).1 with ⟨rfl, single⟩ | ⟨rfl, pair⟩
        · exact .symbol single
        · exact .pair pair

theorem ofSymbol_ne_endOfInput {c : Char} : TokenKind.ofSymbol c ≠ some .endOfInput := by
  unfold TokenKind.ofSymbol
  split <;> simp

theorem ofPair_ne_endOfInput {c : Char} : TokenKind.ofPair c ≠ some .endOfInput := by
  unfold TokenKind.ofPair
  split <;> simp

theorem ofWord_ne_endOfInput (word : String) : TokenKind.ofWord word ≠ .endOfInput := by
  intro same
  have member := ofWord_mem word
  rw [same] at member
  revert member
  decide

theorem Classified.ne_endOfInput {kind : TokenKind} {text : List Char}
    (h : Classified kind text) : kind ≠ .endOfInput := by
  intro same
  cases h with
  | string => cases same
  | word => exact ofWord_ne_endOfInput _ same
  | number isNumber => rcases isNumber with rfl | rfl <;> cases same
  | symbol single => exact ofSymbol_ne_endOfInput (same ▸ single)
  | pair pair => exact ofPair_ne_endOfInput (same ▸ pair)

theorem scan_ne_endOfInput {c : Char} {cs text rest : List Char} {kind : TokenKind}
    (h : scan (c :: cs) = .token kind text rest) : kind ≠ .endOfInput :=
  (classified_of_scan h).ne_endOfInput

namespace Lexeme

variable {kind : TokenKind} {text : List Char}

theorem scan_append (h : Lexeme kind text) {more : List Char}
    (ends : kind.endsBefore more = true) : scan (text ++ more) = .token kind text more :=
  (scanned h.scans).again more ends

theorem ne_nil (h : Lexeme kind text) : text ≠ [] := by
  obtain ⟨c, cs, rfl, -⟩ := h.starts
  exact List.cons_ne_nil c cs

theorem classified (h : Lexeme kind text) : Classified kind text := by
  obtain ⟨c, cs, rfl, -⟩ := h.starts
  exact classified_of_scan h.scans

theorem ne_endOfInput (h : Lexeme kind text) : kind ≠ .endOfInput :=
  h.classified.ne_endOfInput

theorem kind_unique {other : TokenKind} (h : Lexeme kind text)
    (same : scan text = .token other text []) : kind = other := by
  have := h.scans.symm.trans same
  cases this
  rfl

end Lexeme

theorem endsBefore_nil (kind : TokenKind) : kind.endsBefore [] = true := by
  cases kind <;> rfl

theorem lexeme_of_scan {c : Char} {cs text rest : List Char} {kind : TokenKind}
    (h : scan (c :: cs) = .token kind text rest) (visible : isBlank c = false) :
    Lexeme kind text := by
  have read := scanned h
  have again := read.again [] (endsBefore_nil kind)
  rw [List.append_nil] at again
  refine ⟨again, ?_⟩
  cases text with
  | nil =>
    cases again
    exact absurd rfl (scan_ne_endOfInput h)
  | cons d text =>
    have same := read.spelled
    rw [List.cons_append, List.cons.injEq] at same
    exact ⟨d, text, rfl, same.1 ▸ visible⟩

inductive Spells : List Char → List Token → Prop where
  | done : Spells [] []
  | blank {c : Char} {cs : List Char} {ts : List Token} (isBlank : Text.isBlank c = true)
      (later : Spells cs ts) : Spells (c :: cs) ts
  | token {t : Token} {cs : List Char} {ts : List Token} (lexeme : Lexeme t.kind t.text.toList)
      (ends : t.kind.endsBefore cs = true) (later : Spells cs ts) :
      Spells (t.text.toList ++ cs) (t :: ts)

def Token.plain (t : Token) : Token :=
  { t with offset := 0 }

theorem Spells.lexemes {cs : List Char} {ts : List Token} (h : Spells cs ts) :
    ∀ t ∈ ts, Lexeme t.kind t.text.toList := by
  induction h with
  | done => simp
  | blank _ _ ih => exact ih
  | token lexeme _ _ ih =>
    intro t member
    rcases List.mem_cons.1 member with rfl | member
    · exact lexeme
    · exact ih t member

theorem Spells.blanks {blanks cs : List Char} {ts : List Token} (h : Spells cs ts)
    (all : ∀ c ∈ blanks, isBlank c = true) : Spells (blanks ++ cs) ts := by
  induction blanks with
  | nil => exact h
  | cons c blanks ih =>
    exact .blank (all c (by simp)) (ih fun d member => all d (List.mem_cons_of_mem c member))

namespace Scanner

theorem next_of_blank {c : Char} {cs : List Char} {offset : Nat} (h : isBlank c = true) :
    (Scanner.mk (c :: cs) offset).next = (Scanner.mk cs (offset + 1)).next := by
  have skip : (Scanner.mk (c :: cs) offset).skipBlank = (Scanner.mk cs (offset + 1)).skipBlank := by
    simp only [skipBlank, List.dropWhile_cons_of_pos h, List.takeWhile_cons_of_pos h,
      List.length_cons, Scanner.mk.injEq, true_and]
    omega
  simp only [next, skip]

theorem next_of_lexeme {kind : TokenKind} {text cs : List Char} {offset : Nat}
    (lexeme : Lexeme kind text) (ends : kind.endsBefore cs = true) :
    (Scanner.mk (text ++ cs) offset).next =
      (.ok ⟨kind, String.ofList text, offset⟩, ⟨cs, offset + text.length⟩) := by
  obtain ⟨c, later, rfl, visible⟩ := lexeme.starts
  have skip : (Scanner.mk (c :: later ++ cs) offset).skipBlank = ⟨c :: later ++ cs, offset⟩ := by
    simp [skipBlank, visible]
  simp only [next, skip, lexeme.scan_append ends]

/-- The scanner reads the token behind white space, and goes on behind the token. -/
structure Reads (s : Scanner) (blanks : List Char) (t : Token) (later : Scanner) : Prop where
  blank : ∀ c ∈ blanks, isBlank c = true
  ahead : s.ahead = blanks ++ (t.text.toList ++ later.ahead)
  placed : t.offset = s.offset + blanks.length
  moved : later.offset = t.offset + t.text.length

theorem skipBlank_spec (s : Scanner) :
    ∃ blanks, (∀ c ∈ blanks, isBlank c = true) ∧ s.ahead = blanks ++ s.skipBlank.ahead ∧
      s.skipBlank.offset = s.offset + blanks.length ∧
      ∀ c ∈ s.skipBlank.ahead.head?, isBlank c = false := by
  refine ⟨s.ahead.takeWhile isBlank, fun c => List.all_eq_true.1 List.all_takeWhile c,
    List.takeWhile_append_dropWhile.symm, rfl, fun c first => ?_⟩
  obtain ⟨rest, behind⟩ := List.head?_eq_some_iff.1 first
  have stopped := List.head_dropWhile_not (p := isBlank) (l := s.ahead)
    (by simp [show s.ahead.dropWhile isBlank = c :: rest from behind])
  simpa [show s.ahead.dropWhile isBlank = c :: rest from behind] using stopped

theorem next_ok {s later : Scanner} {t : Token} (h : s.next = (.ok t, later)) :
    ∃ blanks, s.Reads blanks t later ∧
      (t.kind = .endOfInput ∧ t.text = "" ∧ later.ahead = [] ∨
        Lexeme t.kind t.text.toList ∧ t.kind.endsBefore later.ahead = true) := by
  obtain ⟨blanks, blank, spaced, offset, visible⟩ := s.skipBlank_spec
  rw [next] at h
  generalize s.skipBlank = behind at *
  obtain ⟨ahead, place⟩ := behind
  dsimp only at *
  split at h <;> cases h
  rename_i kind text rest scans
  refine ⟨blanks, ⟨blank, ?_, offset, by simp [String.length_ofList]⟩, ?_⟩
  · rw [spaced, (scanned scans).spelled, String.toList_ofList]
  · cases ahead with
    | nil =>
      cases scans
      exact .inl ⟨rfl, rfl, rfl⟩
    | cons c cs =>
      refine .inr ⟨?_, (scanned scans).ends⟩
      rw [String.toList_ofList]
      exact lexeme_of_scan scans (visible c rfl)

theorem next_error {s later : Scanner} {fault : Fault} (h : s.next = (.error fault, later)) :
    ∃ blanks c rest, (∀ c ∈ blanks, isBlank c = true) ∧ s.ahead = blanks ++ c :: rest ∧
      fault.offset = s.offset + blanks.length := by
  obtain ⟨blanks, blank, spaced, offset, -⟩ := s.skipBlank_spec
  rw [next] at h
  generalize s.skipBlank = behind at *
  obtain ⟨ahead, place⟩ := behind
  dsimp only at *
  split at h <;> cases h
  rename_i cause rest scans
  cases ahead with
  | nil => cases scans
  | cons c cs => exact ⟨blanks, c, cs, blank, spaced, offset⟩

end Scanner

theorem tokensWithin_of_spells {cs : List Char} {ts : List Token} (h : Spells cs ts)
    (offset bound : Nat) (enough : cs.length < bound) :
    ∃ read last, (Scanner.mk cs offset).tokensWithin bound = .ok (read ++ [last]) ∧
      read.map Token.plain = ts.map Token.plain ∧ last.kind = .endOfInput := by
  induction h generalizing offset bound with
  | done =>
    obtain ⟨bound, rfl⟩ : ∃ k, bound = k + 1 := ⟨bound - 1, by omega⟩
    exact ⟨[], ⟨.endOfInput, "", offset⟩, rfl, rfl, rfl⟩
  | @blank c cs ts isBlank _ ih =>
    obtain ⟨bound, rfl⟩ : ∃ k, bound = k + 1 := ⟨bound - 1, by omega⟩
    obtain ⟨read, last, found, same, kind⟩ :=
      ih (offset + 1) (bound + 1) (by rw [List.length_cons] at enough; omega)
    refine ⟨read, last, ?_, same, kind⟩
    rw [Scanner.tokensWithin, Scanner.next_of_blank isBlank, ← found]
    rfl
  | @token t cs ts lexeme ends _ ih =>
    obtain ⟨bound, rfl⟩ : ∃ k, bound = k + 1 := ⟨bound - 1, by omega⟩
    have taken : 0 < t.text.toList.length := List.length_pos_iff.2 lexeme.ne_nil
    obtain ⟨read, last, found, same, kind⟩ :=
      ih (offset + t.text.toList.length) bound (by rw [List.length_append] at enough; omega)
    refine ⟨⟨t.kind, t.text, offset⟩ :: read, last, ?_, by simp [same, Token.plain], kind⟩
    rw [Scanner.tokensWithin, Scanner.next_of_lexeme lexeme ends]
    simp only [lexeme.ne_endOfInput, if_false, found, String.ofList_toList]
    rfl

/-- A text that spells tokens is read as these tokens and the end of the input. -/
theorem tokenize_of_spells {source : String} {ts : List Token} (h : Spells source.toList ts) :
    ∃ read last, tokenize source = .ok (read ++ [last]) ∧
      read.map Token.plain = ts.map Token.plain ∧ last.kind = .endOfInput :=
  tokensWithin_of_spells h 0 (source.length + 1) (by simp [String.length_toList])

theorem spells_of_tokensWithin {s : Scanner} {bound : Nat} {tokens : List Token}
    (h : s.tokensWithin bound = .ok tokens) (enough : s.ahead.length < bound) :
    ∃ read last, tokens = read ++ [last] ∧ Spells s.ahead read ∧ last.kind = .endOfInput := by
  induction bound generalizing s tokens with
  | zero => omega
  | succ bound ih =>
    rw [Scanner.tokensWithin] at h
    split at h
    · cases h
    · rename_i token later found
      obtain ⟨blanks, reads, ending | ⟨lexeme, ends⟩⟩ := Scanner.next_ok found
      · obtain ⟨kind, text, rest⟩ := ending
        rw [if_pos kind] at h
        cases h
        refine ⟨[], token, rfl, ?_, kind⟩
        rw [reads.ahead, text, rest]
        exact Spells.done.blanks reads.blank
      · rw [if_neg lexeme.ne_endOfInput] at h
        obtain ⟨tokens, more, rfl⟩ := except_map_ok.1 h
        have taken : 0 < token.text.toList.length := List.length_pos_iff.2 lexeme.ne_nil
        have shorter : later.ahead.length < bound := by
          rw [reads.ahead, List.length_append, List.length_append] at enough
          omega
        obtain ⟨read, last, rfl, spelled, kind⟩ := ih more shorter
        refine ⟨token :: read, last, rfl, ?_, kind⟩
        rw [reads.ahead]
        exact (spelled.token lexeme ends).blanks reads.blank

/-- What can be read spells what is read, the end of the input behind it. -/
theorem spells_of_tokenize {source : String} {tokens : List Token}
    (h : tokenize source = .ok tokens) :
    ∃ read last, tokens = read ++ [last] ∧ Spells source.toList read ∧ last.kind = .endOfInput :=
  spells_of_tokensWithin (s := Scanner.start source) h
    (by simp [Scanner.start, String.length_toList])

end RecordPipeline
