import RecordPipeline.Expr.Lowering
import RecordPipeline.Expr.Printer
import RecordPipeline.Proofs.Lexing.Spelling

/-!
String literals read back. A character is written as itself or as a backslash and another one, so the
quote that ends a literal is the last one written, and what the literal stands for is what was quoted.
-/

namespace RecordPipeline.Expr

def quoted (cs : List Char) : List Char :=
  cs.flatMap fun c => (quoteChar c).toList

theorem toList_quote (s : String) : (quote s).toList = '"' :: (quoted s.toList ++ ['"']) := by
  have join (texts : List String) :
      (String.join texts).toList = texts.flatMap fun text => text.toList := by
    induction texts with
    | nil => rfl
    | cons text later ih => simp [String.join_cons, ih]
  simp [quote, quoted, join, List.flatMap_map]

theorem quoteChar_cases (c : Char) :
    (quoteChar c).toList = [c] ∧ c ≠ '"' ∧ c ≠ '\\' ∨
      ∃ mark, (quoteChar c).toList = ['\\', mark] ∧
        ∀ cs, unescapeChars ('\\' :: mark :: cs) = c :: unescapeChars cs := by
  rw [quoteChar]
  split
  · rename_i same
    exact .inr ⟨'"', rfl, fun cs => by simp [unescapeChars, same]⟩
  · split
    · rename_i same
      exact .inr ⟨'\\', rfl, fun cs => by simp [unescapeChars, same]⟩
    · rename_i noQuote noBackslash
      split
      · rename_i same
        exact .inr ⟨'n', rfl, fun cs => by simp [unescapeChars, same]⟩
      · split
        · rename_i same
          exact .inr ⟨'t', rfl, fun cs => by simp [unescapeChars, same]⟩
        · split
          · rename_i same
            exact .inr ⟨'r', rfl, fun cs => by simp [unescapeChars, same]⟩
          · exact .inl ⟨by simp, noQuote, noBackslash⟩

theorem unescapeChars_quoted (cs : List Char) : unescapeChars (quoted cs) = cs := by
  induction cs with
  | nil => rfl
  | cons c cs ih =>
    rw [quoted, List.flatMap_cons, ← quoted]
    rcases quoteChar_cases c with ⟨plain, -, noBackslash⟩ | ⟨mark, escaped, read⟩
    · have kept : unescapeChars (c :: quoted cs) = c :: unescapeChars (quoted cs) :=
        (unescapeChars.eq_def _).trans (if_neg noBackslash)
      rw [plain, List.singleton_append, kept, ih]
    · rw [escaped, List.cons_append, List.singleton_append, read, ih]

theorem spanString_quoted (cs rest : List Char) :
    spanString '"' (quoted cs ++ '"' :: rest) = some (quoted cs ++ ['"'], rest) := by
  induction cs with
  | nil =>
    rw [quoted, List.flatMap_nil, List.nil_append, spanString_cons, if_pos rfl]
    rfl
  | cons c cs ih =>
    rw [quoted, List.flatMap_cons, ← quoted]
    rcases quoteChar_cases c with ⟨plain, noQuote, noBackslash⟩ | ⟨mark, escaped, -⟩
    · rw [plain, List.singleton_append, List.cons_append, spanString_cons, if_neg noQuote,
        if_neg noBackslash, ih]
      rfl
    · rw [escaped, List.append_assoc, List.cons_append, List.singleton_append, spanString_cons]
      simp [ih]

theorem lexeme_quote (s : String) : Lexeme .string (quote s).toList := by
  rw [toList_quote]
  refine ⟨?_, '"', _, rfl, rfl⟩
  rw [scan_cons, if_pos (by decide), scanString, spanString_quoted]

theorem tokenize_quote (s : String) :
    tokenize (quote s) =
      .ok [⟨.string, quote s, 0⟩, ⟨.endOfInput, "", (quote s).length⟩] := by
  have first : (Scanner.mk ((quote s).toList ++ []) 0).next = _ :=
    Scanner.next_of_lexeme (lexeme_quote s) (endsBefore_nil .string)
  rw [List.append_nil, String.ofList_toList, Nat.zero_add, String.length_toList] at first
  obtain ⟨bound, size⟩ : ∃ bound, (quote s).length = bound + 1 := by
    have long := List.length_pos_iff.2 (lexeme_quote s).ne_nil
    rw [String.length_toList] at long
    exact ⟨(quote s).length - 1, by omega⟩
  rw [tokenize, Scanner.start, Scanner.tokensWithin, first, size]
  rfl

theorem unescape_quote (s : String) : unescape (quote s) = s := by
  rw [unescape, toList_quote, List.drop_one, List.tail_cons, List.dropLast_concat,
    unescapeChars_quoted, String.ofList_toList]

end RecordPipeline.Expr
