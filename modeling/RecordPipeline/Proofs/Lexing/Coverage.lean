import RecordPipeline.Proofs.Lexing.Spelling
import RecordPipeline.Proofs.Grammar.Steps

/-!
Nothing of a text is lost when it is read. Each token is the slice of the text at its offset, no token
reaches into the next one, and what no token covers is white space; so it is up to the end of a text
that can be read, and up to the fault in one that cannot.
-/

namespace RecordPipeline

open Text

def Token.covers (t : Token) (place : Nat) : Prop :=
  t.offset ≤ place ∧ place < t.offset + t.text.length

/-- Between two places of a text stand these tokens, each of them the slice at its offset, one behind
the other, and white space where none of them is. -/
structure Covers (text : List Char) (first last : Nat) (tokens : List Token) : Prop where
  ordered : first ≤ last
  inside : ∀ t ∈ tokens, first ≤ t.offset ∧ t.offset + t.text.length ≤ last
  slices : ∀ t ∈ tokens, (text.drop t.offset).take t.text.length = t.text.toList
  apart : tokens.Pairwise fun a b => a.offset < b.offset ∧ a.offset + a.text.length ≤ b.offset
  blank : ∀ place c, first ≤ place → place < last → text[place]? = some c →
    (∀ t ∈ tokens, ¬t.covers place) → isBlank c = true

namespace Covers

variable {text front blanks rest : List Char} {first last : Nat} {tokens : List Token}

theorem blanks_only (spelled : text = front ++ (blanks ++ rest))
    (blank : ∀ c ∈ blanks, isBlank c = true) :
    Covers text front.length (front.length + blanks.length) [] where
  ordered := Nat.le_add_right ..
  inside := by simp
  slices := by simp
  apart := .nil
  blank place c after before found _ := by
    rw [spelled, List.getElem?_append_right after, List.getElem?_append_left (by omega)] at found
    exact blank c (List.mem_of_getElem? found)

theorem ending (spelled : text = front ++ blanks) (blank : ∀ c ∈ blanks, isBlank c = true) :
    Covers text front.length text.length [⟨.endOfInput, "", text.length⟩] := by
  have size : text.length = front.length + blanks.length := by simp [spelled]
  refine ⟨by omega, by simp; omega, by simp, List.pairwise_singleton .., ?_⟩
  intro place c after before found _
  have whole : text = front ++ (blanks ++ []) := by rw [List.append_nil, spelled]
  exact (blanks_only whole blank).blank place c after (by omega) found (by simp)

theorem cons {t : Token} (spelled : text = front ++ (blanks ++ (t.text.toList ++ rest)))
    (blank : ∀ c ∈ blanks, isBlank c = true) (placed : t.offset = front.length + blanks.length)
    (lexeme : Lexeme t.kind t.text.toList) (behind : Covers text (t.offset + t.text.length) last tokens) :
    Covers text front.length last (t :: tokens) := by
  have size : t.text.toList.length = t.text.length := String.length_toList
  have long : 0 < t.text.length := size ▸ List.length_pos_iff.2 lexeme.ne_nil
  have ends := behind.ordered
  refine ⟨by omega, ?_, ?_, ?_, ?_⟩
  · refine List.forall_mem_cons.2 ⟨⟨by omega, ends⟩, fun u member => ?_⟩
    have inside := behind.inside u member
    omega
  · refine List.forall_mem_cons.2 ⟨?_, behind.slices⟩
    rw [spelled, ← List.append_assoc, List.drop_left' (by simp [placed]), List.take_left' size]
  · refine List.pairwise_cons.2 ⟨fun u member => ?_, behind.apart⟩
    have inside := behind.inside u member
    omega
  · intro place c after before found free
    obtain ⟨away, free⟩ := List.forall_mem_cons.1 free
    rw [Token.covers, not_and, Nat.not_lt] at away
    by_cases early : place < t.offset
    · exact (blanks_only spelled blank).blank place c after (by omega) found (by simp)
    · exact behind.blank place c (away (by omega)) before found free

end Covers

namespace Scanner

variable {text front : List Char} {s : Scanner} {bound : Nat}

theorem Reads.passed {blanks : List Char} {t : Token} {later : Scanner} (reads : s.Reads blanks t later)
    (spelled : text = front ++ s.ahead) (placed : s.offset = front.length) :
    text = front ++ (blanks ++ t.text.toList) ++ later.ahead ∧
      (front ++ (blanks ++ t.text.toList)).length = t.offset + t.text.length ∧
      later.offset = (front ++ (blanks ++ t.text.toList)).length := by
  have offset := reads.placed
  have moved := reads.moved
  refine ⟨by simp [spelled, reads.ahead], ?_, ?_⟩ <;>
    simp only [List.length_append, String.length_toList] <;> omega

theorem covers_of_tokensWithin {tokens : List Token} (spelled : text = front ++ s.ahead)
    (placed : s.offset = front.length) (h : s.tokensWithin bound = .ok tokens)
    (enough : s.ahead.length < bound) :
    ∃ body, tokens = body ++ [⟨.endOfInput, "", text.length⟩] ∧
      (∀ t ∈ body, t.kind ≠ .endOfInput) ∧ Covers text front.length text.length tokens := by
  induction bound generalizing s front tokens with
  | zero => omega
  | succ bound ih =>
    rw [tokensWithin] at h
    split at h
    · cases h
    · rename_i token later found
      obtain ⟨blanks, reads, ending | ⟨lexeme, -⟩⟩ := next_ok found
      · obtain ⟨kind, visible, nothing⟩ := ending
        rw [if_pos kind] at h
        cases h
        have all : text = front ++ blanks := by
          rw [spelled, reads.ahead, visible, nothing]
          simp
        have place : token = ⟨.endOfInput, "", text.length⟩ := by
          have offset := reads.placed
          rw [placed, ← List.length_append, ← all] at offset
          rw [← kind, ← visible, ← offset]
        subst place
        exact ⟨[], rfl, by simp, .ending all reads.blank⟩
      · rw [if_neg lexeme.ne_endOfInput] at h
        obtain ⟨tokens, more, rfl⟩ := except_map_ok.1 h
        obtain ⟨spelled', size, placed'⟩ := reads.passed spelled placed
        have taken : 0 < token.text.toList.length := List.length_pos_iff.2 lexeme.ne_nil
        have shorter : later.ahead.length < bound := by
          rw [reads.ahead, List.length_append, List.length_append] at enough
          omega
        obtain ⟨body, rfl, ended, behind⟩ := ih spelled' placed' more shorter
        rw [reads.ahead] at spelled
        exact ⟨token :: body, rfl, List.forall_mem_cons.2 ⟨lexeme.ne_endOfInput, ended⟩,
          .cons spelled reads.blank (placed ▸ reads.placed) lexeme (size ▸ behind)⟩

/-- Where a scanner meets a fault, tokens and white space are all there is in front of it. -/
theorem covers_of_fault {fault : Fault} (spelled : text = front ++ s.ahead)
    (placed : s.offset = front.length) (h : s.tokensWithin bound = .error fault) :
    fault.offset < text.length ∧ ∃ read, s.readings (read.length + 1) = read.map .ok ++ [.error fault] ∧
      (∀ t ∈ read, t.kind ≠ .endOfInput) ∧ Covers text front.length fault.offset read := by
  induction bound generalizing s front with
  | zero => cases h
  | succ bound ih =>
    rw [tokensWithin] at h
    split at h
    · rename_i other later found
      cases h
      obtain ⟨blanks, c, rest, blank, ahead, offset⟩ := next_error found
      rw [ahead] at spelled
      refine ⟨by simp [spelled, offset, placed], [], by simp [readings, found], by simp, ?_⟩
      rw [offset, placed]
      exact .blanks_only spelled blank
    · rename_i token later found
      obtain ⟨blanks, reads, ending | ⟨lexeme, -⟩⟩ := next_ok found
      · rw [if_pos ending.1] at h
        cases h
      · rw [if_neg lexeme.ne_endOfInput] at h
        cases more : later.tokensWithin bound with
        | ok tokens =>
          rw [more] at h
          cases h
        | error other =>
          rw [more] at h
          cases h
          obtain ⟨spelled', size, placed'⟩ := reads.passed spelled placed
          obtain ⟨early, read, again, ended, behind⟩ := ih spelled' placed' more
          refine ⟨early, token :: read, ?_, List.forall_mem_cons.2 ⟨lexeme.ne_endOfInput, ended⟩, ?_⟩
          · rw [List.length_cons, readings, found, again]
            rfl
          · rw [reads.ahead] at spelled
            exact .cons spelled reads.blank (placed ▸ reads.placed) lexeme (size ▸ behind)

end Scanner

/-- A text that can be read is its tokens, in their order and each once, and white space; the last
token, and no other, is the end of the input behind the last character. Of any other text that holds
up to the fault, which lies at one of its characters. -/
theorem tokenize_covers (source : String) :
    match tokenize source with
    | .ok tokens =>
      ∃ body, tokens = body ++ [⟨.endOfInput, "", source.length⟩] ∧
        (∀ t ∈ body, t.kind ≠ .endOfInput) ∧ Covers source.toList 0 source.length tokens
    | .error fault =>
      fault.offset < source.length ∧
        ∃ read, (Scanner.start source).readings (read.length + 1) =
            read.map .ok ++ [.error fault] ∧
          (∀ t ∈ read, t.kind ≠ .endOfInput) ∧ Covers source.toList 0 fault.offset read := by
  have spelled : source.toList = [] ++ (Scanner.start source).ahead := rfl
  split
  · rename_i tokens read
    exact Scanner.covers_of_tokensWithin spelled rfl read
      (by simp [Scanner.start, String.length_toList])
  · rename_i fault refused
    exact Scanner.covers_of_fault spelled rfl refused

end RecordPipeline
