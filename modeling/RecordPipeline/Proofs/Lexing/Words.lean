import RecordPipeline.Proofs.Lexing.Spelling

/-!
Words: what is spelled as a name, whether it is a keyword or not. A word is one token, of the kind
that its spelling has.
-/

namespace RecordPipeline

open Text

namespace Text

theorem liesIn_cons_cons {low high point : Nat} {later : List Nat} :
    liesIn (low :: high :: later) point = true ↔
      low ≤ point ∧ (point < high ∨ liesIn later point = true) := by
  by_cases below : point < low
  · simp [liesIn_of_lt below, Nat.not_le.2 below]
  · by_cases inside : point < high <;> simp [liesIn, below, inside, Nat.not_lt.1 below]

def blankPoints : List Nat :=
  [9, 10, 11, 12, 13, 32, 133, 160, 5760, 8192, 8193, 8194, 8195, 8196, 8197, 8198, 8199, 8200, 8201,
    8202, 8232, 8233, 8239, 8287, 12288]

theorem mem_blankPoints {c : Char} (blank : isBlank c = true) : c.toNat ∈ blankPoints := by
  simp only [isBlank, blankBounds, liesIn_cons_cons, liesIn_nil, Bool.false_eq_true,
    or_false] at blank
  simp only [blankPoints, List.mem_cons, List.not_mem_nil, or_false]
  omega

theorem not_continuesName_of_isBlank {c : Char} (blank : isBlank c = true) :
    continuesName c = false := by
  have none : ∀ point ∈ blankPoints, continuesName (Char.ofNat point) = false := by decide +kernel
  have stops := none c.toNat (mem_blankPoints blank)
  rwa [Char.ofNat_toNat] at stops

theorem isBlank_of_startsName {c : Char} (starts : startsName c = true) : isBlank c = false := by
  rw [Bool.eq_false_iff]
  intro blank
  have continues := continuesName_of_startsName starts
  rw [not_continuesName_of_isBlank blank] at continues
  cases continues

def isWord (text : String) : Bool :=
  match text.toList with
  | [] => false
  | c :: cs => startsName c && cs.all continuesName

end Text

def isIdentifier (text : String) : Bool :=
  isWord text && TokenKind.ofWord text == .name

theorem lexeme_of_isWord {text : String} (word : isWord text = true) :
    Lexeme (.ofWord text) text.toList := by
  rw [isWord] at word
  split at word
  · cases word
  · rename_i c cs spelled
    rw [Bool.and_eq_true] at word
    obtain ⟨starts, continues⟩ := word
    have notQuote : ¬(c = '"' || c = '\'') = true := by
      intro isQuote
      simp only [Bool.or_eq_true, decide_eq_true_eq] at isQuote
      rcases isQuote with rfl | rfl <;> cases starts
    have all : ∀ d ∈ c :: cs, continuesName d = true :=
      List.forall_mem_cons.2 ⟨continuesName_of_startsName starts, List.all_eq_true.1 continues⟩
    obtain ⟨taken, dropped⟩ := takeWhile_append_of_nameEnds all (show TokenKind.nameEnds [] = true from rfl)
    rw [List.append_nil] at taken dropped
    refine ⟨?_, c, cs, spelled, isBlank_of_startsName starts⟩
    rw [spelled, scan_cons, if_neg notQuote, if_pos starts, scanName, taken, dropped, ← spelled,
      String.ofList_toList]

theorem lexeme_of_isIdentifier {text : String} (identifier : isIdentifier text = true) :
    Lexeme .name text.toList := by
  rw [isIdentifier, Bool.and_eq_true, beq_iff_eq] at identifier
  exact identifier.2 ▸ lexeme_of_isWord identifier.1

end RecordPipeline
