import RecordPipeline.TokenTree

/-!
Tokens split at a delimiter. Each delimiter closes a run of tokens, which is given as its tokens with
blanks between them, also where it has none; what stands behind the last delimiter is given only if
there is something, and then nothing is given any more.
-/

namespace RecordPipeline

/-- The texts of the runs between delimiters. The last run has no delimiter behind it, and no text if
it has no token. -/
def runTexts : List (List String) → List String
  | [] => []
  | [last] => if last = [] then [] else [String.intercalate " " last]
  | run :: later => String.intercalate " " run :: runTexts later

theorem runTexts_cons (run : List String) {later : List (List String)} (more : later ≠ []) :
    runTexts (run :: later) = String.intercalate " " run :: runTexts later := by
  obtain ⟨next, rest, rfl⟩ := List.exists_cons_of_ne_nil more
  rfl

namespace Pieces

variable {delimiter : String} {tokens run later : List String}

theorem gather_onto {merged : String} (begun : merged ≠ "") (away : delimiter ∉ run) :
    gather delimiter merged (run ++ later) =
      gather delimiter (String.intercalate " " (merged :: run)) later := by
  induction run generalizing merged with
  | nil => simp
  | cons token run ih =>
    rw [List.mem_cons, not_or] at away
    have longer : merged ++ " " ++ token ≠ "" := by simp
    rw [List.cons_append, gather, if_neg (Ne.symm away.1), if_neg begun, ih longer away.2,
      String.intercalate_cons_cons, String.intercalate_cons_append]

theorem gather_run (filled : ∀ t ∈ run, t ≠ "") (away : delimiter ∉ run) :
    gather delimiter "" (run ++ later) = gather delimiter (String.intercalate " " run) later := by
  cases run with
  | nil => simp
  | cons token run =>
    rw [List.mem_cons, not_or] at away
    rw [List.cons_append, gather, if_neg (Ne.symm away.1), if_pos rfl,
      gather_onto (filled token (List.mem_cons_self ..)) away.2]

theorem intercalate_ne_empty (filled : ∀ t ∈ run, t ≠ "") (some : run ≠ []) :
    String.intercalate " " run ≠ "" := by
  match run, some with
  | [token], _ => simpa using filled token (List.mem_cons_self ..)
  | token :: next :: later, _ => simp

theorem next_of_delimiter (filled : ∀ t ∈ run, t ≠ "") (away : delimiter ∉ run) :
    (ofTokens (run ++ delimiter :: later)).next delimiter =
      (some (String.intercalate " " run), ofTokens later) := by
  have gathered : gather delimiter "" (run ++ delimiter :: later) =
      (String.intercalate " " run, some later) := by
    rw [gather_run filled away, gather, if_pos rfl]
  simp [next, ofTokens, gathered]

theorem next_of_last (filled : ∀ t ∈ tokens, t ≠ "") (away : delimiter ∉ tokens) :
    (ofTokens tokens).next delimiter =
      (if tokens = [] then none else some (String.intercalate " " tokens), ⟨[], true⟩) := by
  have gathered : gather delimiter "" tokens = (String.intercalate " " tokens, none) := by
    have whole : gather delimiter "" (tokens ++ []) = _ := gather_run filled away
    rwa [List.append_nil] at whole
  by_cases empty : tokens = []
  · subst empty
    rfl
  · simp [next, ofTokens, gathered, empty, intercalate_ne_empty filled empty]

theorem ended_of_next {pieces : Pieces} (nothing : (pieces.next delimiter).1 = none) :
    (pieces.next delimiter).2.ended = true := by
  rw [next] at nothing ⊢
  split
  · assumption
  · rename_i going
    rw [if_neg going] at nothing
    split at nothing
    · cases nothing
    · rfl

def after (delimiter : String) : Nat → Pieces → Pieces
  | 0, pieces => pieces
  | count + 1, pieces => after delimiter count (pieces.next delimiter).2

def answer (delimiter : String) (count : Nat) (pieces : Pieces) : Option String :=
  ((pieces.after delimiter count).next delimiter).1

theorem answer_succ (delimiter : String) (count : Nat) (pieces : Pieces) :
    pieces.answer delimiter (count + 1) = (pieces.next delimiter).2.answer delimiter count := rfl

theorem answer_of_ended {pieces : Pieces} (ended : pieces.ended = true) (count : Nat) :
    pieces.answer delimiter count = none := by
  have still : pieces.after delimiter count = pieces := by
    induction count with
    | zero => rfl
    | succ count ih => rw [after, next_of_ended delimiter ended, ih]
  rw [answer, still, next_of_ended delimiter ended]

/-- Once nothing is given, nothing is given any more. -/
theorem answer_none_forever {pieces : Pieces} {count : Nat}
    (nothing : pieces.answer delimiter count = none) (more : Nat) :
    pieces.answer delimiter (count + more) = none := by
  induction count generalizing pieces with
  | zero =>
    cases more with
    | zero => exact nothing
    | succ more =>
      rw [Nat.zero_add, answer_succ]
      exact answer_of_ended (ended_of_next nothing) more
  | succ count ih =>
    rw [Nat.succ_add, answer_succ]
    exact ih nothing

theorem run_cases (delimiter : String) (tokens : List String) :
    (delimiter ∉ tokens ∧ tokens.splitOn delimiter = [tokens]) ∨
      ∃ run later, tokens = run ++ delimiter :: later ∧ delimiter ∉ run ∧
        tokens.splitOn delimiter = run :: later.splitOn delimiter := by
  by_cases found : delimiter ∈ tokens
  · obtain ⟨run, later, rfl, away⟩ := List.eq_append_cons_of_mem found
    exact .inr ⟨run, later, rfl, away, List.splitOn_append_cons_self_of_not_mem away later⟩
  · exact .inl ⟨found, List.splitOn_eq_singleton found⟩

theorem answer_eq_runTexts (filled : ∀ t ∈ tokens, t ≠ "") (count : Nat) :
    (ofTokens tokens).answer delimiter count = (runTexts (tokens.splitOn delimiter))[count]? := by
  induction count generalizing tokens with
  | zero =>
    rcases run_cases delimiter tokens with ⟨away, runs⟩ | ⟨run, later, rfl, away, runs⟩
    · change ((ofTokens tokens).next delimiter).1 = _
      rw [next_of_last filled away, runs, runTexts]
      split <;> rfl
    · rw [List.forall_mem_append] at filled
      change ((ofTokens _).next delimiter).1 = _
      rw [next_of_delimiter filled.1 away, runs, runTexts_cons run (List.splitOn_ne_nil _ _)]
      rfl
  | succ count ih =>
    rw [answer_succ]
    rcases run_cases delimiter tokens with ⟨away, runs⟩ | ⟨run, later, rfl, away, runs⟩
    · rw [next_of_last filled away, runs, runTexts]
      dsimp only
      rw [answer_of_ended rfl]
      split <;> rfl
    · rw [List.forall_mem_append, List.forall_mem_cons] at filled
      rw [next_of_delimiter filled.1 away, runs, runTexts_cons run (List.splitOn_ne_nil _ _)]
      exact ih filled.2.2

theorem toListWithin_eq_runTexts (filled : ∀ t ∈ tokens, t ≠ "") {bound : Nat}
    (enough : tokens.length < bound) :
    (ofTokens tokens).toListWithin delimiter bound = runTexts (tokens.splitOn delimiter) := by
  induction bound generalizing tokens with
  | zero => omega
  | succ bound ih =>
    rw [toListWithin]
    rcases run_cases delimiter tokens with ⟨away, runs⟩ | ⟨run, later, rfl, away, runs⟩
    · rw [next_of_last filled away, runs, runTexts]
      by_cases empty : tokens = []
      · rw [if_pos empty, if_pos empty]
      · rw [if_neg empty, if_neg empty]
        dsimp only
        cases bound with
        | zero => rfl
        | succ bound => rw [toListWithin, next_of_ended delimiter rfl]
    · rw [List.forall_mem_append, List.forall_mem_cons] at filled
      rw [List.length_append, List.length_cons] at enough
      rw [next_of_delimiter filled.1 away, runs, runTexts_cons run (List.splitOn_ne_nil _ _)]
      exact congrArg _ (ih filled.2.2 (by omega))

/-- The pieces of a list of tokens are the texts of its runs between delimiters, in their order, one for
each time a piece is asked for, and after the last of them nothing for ever. -/
theorem pieces_are_runs (delimiter : String) (tokens : List String) (filled : ∀ t ∈ tokens, t ≠ "") :
    (ofTokens tokens).toList delimiter = runTexts (tokens.splitOn delimiter) ∧
      (∀ count, (ofTokens tokens).answer delimiter count =
        (runTexts (tokens.splitOn delimiter))[count]?) ∧
      ∀ (pieces : Pieces) (count more : Nat), pieces.answer delimiter count = none →
        pieces.answer delimiter (count + more) = none := by
  refine ⟨?_, answer_eq_runTexts filled, fun pieces count more nothing => ?_⟩
  · exact toListWithin_eq_runTexts filled (Nat.lt_succ_self _)
  · exact answer_none_forever nothing more

/-- Delimiters in front, side by side and at the end. -/
theorem pieces_are_runs_commas :
    (ofTokens [",", "a", "b", ",", ",", "c", ","]).toList "," = ["", "a b", "", "c"] ∧
      (ofTokens [",", "a", "b", ",", ",", "c", ","]).answer "," 3 = some "c" ∧
      (ofTokens [",", "a", "b", ",", ",", "c", ","]).answer "," (4 + 5) = none := by
  obtain ⟨all, each, ended⟩ :=
    pieces_are_runs "," [",", "a", "b", ",", ",", "c", ","] (by decide)
  have runs : runTexts ([",", "a", "b", ",", ",", "c", ","].splitOn ",") = ["", "a b", "", "c"] := by
    decide +kernel
  rw [runs] at all each
  exact ⟨all, each 3, ended _ 4 5 (each 4)⟩

end Pieces

end RecordPipeline
