import RecordPipeline.Token.Lexer

/-!
What one scan takes off the front of a text. The token is scanned again in front of every text that
cannot lengthen it, and the text behind a scanned token is such a text.
-/

namespace RecordPipeline

open Text

namespace TokenKind

/-- A number ends before a text that begins neither with a name nor with more of the number. -/
def numberEnds (isFloat : Bool) : List Char → Bool
  | [] => true
  | c :: cs => !startsName c && !isDigit c && !(c == '.' && !isFloat && startsWithDigit cs)

def nameEnds (rest : List Char) : Bool :=
  !(rest.head?.map continuesName).getD false

/-- The text behind a token of this kind does not lengthen it. -/
def endsBefore (kind : TokenKind) (rest : List Char) : Bool :=
  match kind with
  | integer => numberEnds false rest
  | float => numberEnds true rest
  | trueWord | falseWord | nullWord | name | andWord | orWord | notWord | inWord => nameEnds rest
  | assign | less | greater => rest.head? != some '='
  | dot => !startsWithDigit rest
  | endOfInput => rest.isEmpty
  | _ => true

end TokenKind

-- derived once, before the inductions that follow the two spans
attribute [elab_as_elim] spanString.induct_unfolding spanNumber.induct_unfolding

theorem spanString_cons (quote c : Char) (cs : List Char) :
    spanString quote (c :: cs) =
      if c = quote then some ([c], cs)
      else if c = '\\' then
        match cs with
        | [] => none
        | escaped :: cs =>
          (spanString quote cs).map fun (text, rest) => (c :: escaped :: text, rest)
      else (spanString quote cs).map fun (text, rest) => (c :: text, rest) :=
  spanString.eq_def quote (c :: cs)

theorem spanString_append {quote : Char} {cs text rest : List Char}
    (h : spanString quote cs = some (text, rest)) (more : List Char) :
    cs = text ++ rest ∧ spanString quote (text ++ more) = some (text, more) := by
  fun_induction spanString quote cs generalizing text rest with
  | case1 => cases h
  | case2 cs =>
    cases h
    exact ⟨rfl, by simp [spanString_cons]⟩
  | case3 => cases h
  | case4 escaped cs notQuote ih =>
    simp only [Option.map_eq_some_iff, Prod.exists, Prod.mk.injEq] at h
    obtain ⟨text', rest', inner, rfl, rfl⟩ := h
    obtain ⟨spelled, again⟩ := ih inner
    refine ⟨by simp [spelled], ?_⟩
    rw [List.cons_append, List.cons_append, spanString_cons, if_neg notQuote, if_pos rfl]
    simp [again]
  | case5 c cs notQuote notEscape ih =>
    simp only [Option.map_eq_some_iff, Prod.exists, Prod.mk.injEq] at h
    obtain ⟨text', rest', inner, rfl, rfl⟩ := h
    obtain ⟨spelled, again⟩ := ih inner
    refine ⟨by simp [spelled], ?_⟩
    rw [List.cons_append, spanString_cons, if_neg notQuote, if_neg notEscape, again]
    rfl

theorem spanString_last {quote : Char} {cs text rest : List Char}
    (h : spanString quote cs = some (text, rest)) : text.getLast? = some quote := by
  have pushed {c : Char} {text : List Char} (last : text.getLast? = some quote) :
      (c :: text).getLast? = some quote := by
    rw [List.getLast?_cons, last, Option.getD_some]
  fun_induction spanString quote cs generalizing text rest with
  | case1 => cases h
  | case2 cs =>
    cases h
    rfl
  | case3 => cases h
  | case4 escaped cs notQuote ih =>
    simp only [Option.map_eq_some_iff, Prod.exists, Prod.mk.injEq] at h
    obtain ⟨text', rest', inner, rfl, rfl⟩ := h
    exact pushed (pushed (ih inner))
  | case5 c cs notQuote notEscape ih =>
    simp only [Option.map_eq_some_iff, Prod.exists, Prod.mk.injEq] at h
    obtain ⟨text', rest', inner, rfl, rfl⟩ := h
    exact pushed (ih inner)

theorem spanNumber_cons (isFloat : Bool) (c : Char) (cs : List Char) :
    spanNumber isFloat (c :: cs) =
      if isDigit c then (spanNumber isFloat cs).push c
      else if c = '.' && !isFloat && startsWithDigit cs then (spanNumber true cs).push c
      else if c = 'e' || c = 'E' then
        if startsWithDigit cs then (spanNumber true cs).push c
        else
          match cs with
          | [] => ⟨[], [c], isFloat⟩
          | sign :: digits =>
            if isSign sign && startsWithDigit digits then
              ((spanNumber true digits).push sign).push c
            else ⟨[], c :: sign :: digits, isFloat⟩
      else ⟨[], c :: cs, isFloat⟩ :=
  spanNumber.eq_def isFloat (c :: cs)

theorem spanNumber_spells (isFloat : Bool) (cs : List Char) :
    (spanNumber isFloat cs).text ++ (spanNumber isFloat cs).rest = cs := by
  fun_induction spanNumber isFloat cs with
  | case1 | case5 | case7 | case8 => rfl
  | case2 _ _ _ _ ih | case3 _ _ _ _ _ ih | case4 _ _ _ _ _ _ _ ih =>
    simpa [NumberSpan.push] using ih
  | case6 _ _ _ _ _ _ _ _ _ ih => simpa [NumberSpan.push] using ih

theorem startsWithDigit_spanNumber {cs : List Char} (h : startsWithDigit cs = true)
    (isFloat : Bool) (more : List Char) :
    startsWithDigit ((spanNumber isFloat cs).text ++ more) = true := by
  cases cs with
  | nil => cases h
  | cons c cs =>
    have digit : isDigit c = true := h
    rw [spanNumber_cons, if_pos digit]
    exact digit

theorem not_point_of_exponent {c : Char} (h : (c = 'e' || c = 'E') = true) : c ≠ '.' := by
  rintro rfl
  simp at h

theorem startsName_of_exponent {c : Char} (h : (c = 'e' || c = 'E') = true) :
    startsName c = true := by
  rcases (by simpa using h : c = 'e' ∨ c = 'E') with rfl | rfl <;> decide

theorem spanNumber_of_ends {isFloat : Bool} {rest : List Char}
    (ends : TokenKind.numberEnds isFloat rest = true) :
    spanNumber isFloat rest = ⟨[], rest, isFloat⟩ := by
  cases rest with
  | nil => rfl
  | cons c cs =>
    simp only [TokenKind.numberEnds, Bool.and_eq_true, Bool.not_eq_true'] at ends
    obtain ⟨⟨noName, noDigit⟩, noPoint⟩ := ends
    have noExponent : ¬(c = 'e' || c = 'E') = true := by
      intro h
      rw [startsName_of_exponent h] at noName
      cases noName
    rw [spanNumber_cons, if_neg (by simp [noDigit]), if_neg (by simpa using noPoint),
      if_neg noExponent]

theorem spanNumber_ends (isFloat : Bool) (cs : List Char)
    (noName : ¬((spanNumber isFloat cs).rest.head?.map startsName).getD false = true) :
    TokenKind.numberEnds (spanNumber isFloat cs).isFloat (spanNumber isFloat cs).rest = true := by
  fun_induction spanNumber isFloat cs with
  | case1 => rfl
  | case2 _ _ _ _ ih | case3 _ _ _ _ _ ih | case4 _ _ _ _ _ _ _ ih => exact ih noName
  | case6 _ _ _ _ _ _ _ _ _ ih => exact ih noName
  | case5 _ c _ exponent | case7 _ c _ exponent =>
    exact absurd (startsName_of_exponent exponent) (by simpa using noName)
  | case8 isFloat c cs notDigit notPoint notExponent =>
    have stop : startsName c = false := by simpa using noName
    have noDigit : isDigit c = false := by simpa using notDigit
    have noPoint : (c == '.' && !isFloat && startsWithDigit cs) = false := by
      rw [Bool.eq_false_iff]
      intro point
      exact notPoint (by simpa using point)
    rw [TokenKind.numberEnds, stop, noDigit, noPoint]
    rfl

/-- A number is spanned again in front of any text that does not lengthen it. -/
theorem spanNumber_append {isFloat : Bool} {cs more : List Char}
    (ends : TokenKind.numberEnds (spanNumber isFloat cs).isFloat more = true) :
    spanNumber isFloat ((spanNumber isFloat cs).text ++ more) =
      ⟨(spanNumber isFloat cs).text, more, (spanNumber isFloat cs).isFloat⟩ := by
  fun_induction spanNumber isFloat cs with
  | case1 | case5 | case7 | case8 => exact spanNumber_of_ends ends
  | case2 isFloat c cs digit ih =>
    simp only [NumberSpan.push, List.cons_append] at ends ⊢
    rw [spanNumber_cons, if_pos digit, ih ends]
    rfl
  | case3 isFloat c cs notDigit point ih =>
    simp only [NumberSpan.push, List.cons_append] at ends ⊢
    simp only [Bool.and_eq_true] at point
    have again := startsWithDigit_spanNumber point.2 true more
    rw [spanNumber_cons, if_neg notDigit, if_pos (by simp [point, again]), ih ends]
    rfl
  | case4 isFloat c cs notDigit notPoint exponent digits ih =>
    simp only [NumberSpan.push, List.cons_append] at ends ⊢
    have again := startsWithDigit_spanNumber digits true more
    rw [spanNumber_cons, if_neg notDigit, if_neg (by simp [not_point_of_exponent exponent]),
      if_pos exponent, if_pos again, ih ends]
    rfl
  | case6 isFloat c notDigit exponent sign digits signed notPoint notDigits ih =>
    simp only [NumberSpan.push, List.cons_append] at ends ⊢
    simp only [Bool.and_eq_true] at signed
    have again := startsWithDigit_spanNumber signed.2 true more
    have noDigits : ¬startsWithDigit (sign :: ((spanNumber true digits).text ++ more)) = true :=
      notDigits
    rw [spanNumber_cons, if_neg notDigit, if_neg (by simp [not_point_of_exponent exponent]),
      if_pos exponent, if_neg noDigits]
    simp only [signed.1, again, Bool.and_self, if_true, ih ends]
    rfl

/-- What a scan says about its token: it lies in front of the rest, which does not lengthen it, and
it is found again in front of every other text of which that can be said. -/
structure Scanned (cs : List Char) (kind : TokenKind) (text rest : List Char) : Prop where
  spelled : cs = text ++ rest
  ends : kind.endsBefore rest = true
  again : ∀ more, kind.endsBefore more = true → scan (text ++ more) = .token kind text more

theorem scan_cons (c : Char) (cs : List Char) :
    scan (c :: cs) =
      if c = '"' || c = '\'' then scanString c cs
      else if startsName c then scanName (c :: cs)
      else if isDigit c then scanNumber (c :: cs)
      else scanSymbol c cs := rfl

theorem scanned_string {quote : Char} {cs text rest : List Char} {kind : TokenKind}
    (isQuote : (quote = '"' || quote = '\'') = true)
    (h : scanString quote cs = .token kind text rest) :
    kind = .string ∧ Scanned (quote :: cs) kind text rest := by
  rw [scanString] at h
  split at h
  · rename_i body behind span
    cases h
    obtain ⟨spelled, -⟩ := spanString_append span []
    refine ⟨rfl, by simp [spelled], rfl, fun more _ => ?_⟩
    rw [List.cons_append, scan_cons, if_pos isQuote, scanString,
      (spanString_append span more).2]
  · cases h

theorem ofWord_mem (word : String) : TokenKind.ofWord word ∈
    [TokenKind.name, .andWord, .orWord, .notWord, .inWord, .trueWord, .falseWord, .nullWord] := by
  rw [TokenKind.ofWord]
  cases found : TokenKind.keywords.lookup word with
  | none => decide
  | some kind =>
    have listed : ∀ entry ∈ TokenKind.keywords, entry.2 ∈
        [TokenKind.name, .andWord, .orWord, .notWord, .inWord, .trueWord, .falseWord, .nullWord] :=
      by decide
    obtain ⟨before, after, same, -⟩ := List.lookup_eq_some_iff.1 found
    exact listed (word, kind) (by rw [same]; simp)

theorem endsBefore_ofWord (word : String) (rest : List Char) :
    (TokenKind.ofWord word).endsBefore rest = TokenKind.nameEnds rest := by
  have member := ofWord_mem word
  generalize TokenKind.ofWord word = kind at member ⊢
  simp only [List.mem_cons, List.not_mem_nil, or_false] at member
  rcases member with rfl | rfl | rfl | rfl | rfl | rfl | rfl | rfl <;> rfl

theorem nameEnds_dropWhile (cs : List Char) :
    TokenKind.nameEnds (cs.dropWhile continuesName) = true := by
  rw [TokenKind.nameEnds]
  cases found : cs.dropWhile continuesName with
  | nil => rfl
  | cons c rest =>
    have stopped := List.head_dropWhile_not (p := continuesName) (l := cs) (by simp [found])
    simp only [found, List.head_cons] at stopped
    simp [stopped]

theorem takeWhile_append_of_nameEnds {text more : List Char}
    (all : ∀ c ∈ text, continuesName c = true) (ends : TokenKind.nameEnds more = true) :
    (text ++ more).takeWhile continuesName = text ∧
      (text ++ more).dropWhile continuesName = more := by
  rw [List.takeWhile_append_of_pos all, List.dropWhile_append_of_pos all]
  cases more with
  | nil => simp
  | cons c more =>
    have stop : continuesName c = false := by simpa [TokenKind.nameEnds] using ends
    simp [stop]

theorem scanned_name {c : Char} {cs text rest : List Char} {kind : TokenKind}
    (notQuote : ¬(c = '"' || c = '\'') = true) (starts : startsName c = true)
    (h : scanName (c :: cs) = .token kind text rest) :
    kind = .ofWord (String.ofList text) ∧ Scanned (c :: cs) kind text rest := by
  cases h
  refine ⟨rfl, List.takeWhile_append_dropWhile.symm, ?_, fun more ends => ?_⟩
  · rw [endsBefore_ofWord]
    exact nameEnds_dropWhile _
  · rw [endsBefore_ofWord] at ends
    obtain ⟨taken, dropped⟩ := takeWhile_append_of_nameEnds
      (fun _ => List.all_eq_true.1 (List.all_takeWhile (l := c :: cs) (p := continuesName)) _) ends
    have front : (c :: cs).takeWhile continuesName =
        c :: cs.takeWhile continuesName := by
      rw [List.takeWhile_cons_of_pos (continuesName_of_startsName starts)]
    rw [front, List.cons_append] at taken dropped ⊢
    rw [scan_cons, if_neg notQuote, if_pos starts, scanName, taken, dropped]

theorem scanned_number {c : Char} {cs text rest : List Char} {kind : TokenKind}
    (notQuote : ¬(c = '"' || c = '\'') = true) (notName : ¬startsName c = true)
    (digit : isDigit c = true) (h : scanNumber (c :: cs) = .token kind text rest) :
    (kind = .integer ∨ kind = .float) ∧ Scanned (c :: cs) kind text rest := by
  rw [scanNumber] at h
  split at h
  · cases h
  · rename_i noName
    cases h
    have spelled := spanNumber_spells false (c :: cs)
    have front : ∃ later, (spanNumber false (c :: cs)).text = c :: later := by
      rw [spanNumber_cons, if_pos digit]
      exact ⟨_, rfl⟩
    have ends := spanNumber_ends false (c :: cs) (by simpa using noName)
    have same (more : List Char) : (if (spanNumber false (c :: cs)).isFloat = true then
        TokenKind.float else .integer).endsBefore more =
          TokenKind.numberEnds (spanNumber false (c :: cs)).isFloat more := by
      cases (spanNumber false (c :: cs)).isFloat <;> rfl
    refine ⟨?_, spelled.symm, (same _).trans ends, fun more h => ?_⟩
    · cases (spanNumber false (c :: cs)).isFloat <;> simp
    · rw [same] at h
      have again := spanNumber_append h
      obtain ⟨later, starts⟩ := front
      have noName : ¬(more.head?.map startsName).getD false = true := by
        cases more with
        | nil => simp
        | cons d more =>
          simp only [TokenKind.numberEnds, Bool.and_eq_true, Bool.not_eq_true'] at h
          simp [h.1.1]
      rw [starts, List.cons_append] at again ⊢
      rw [scan_cons, if_neg notQuote, if_neg notName, if_pos digit, scanNumber, again]
      simp only [if_neg noName]

theorem scanSymbol_pair {c : Char} {kind : TokenKind} (pair : TokenKind.ofPair c = some kind)
    (rest : List Char) : scanSymbol c ('=' :: rest) = .token kind [c, '='] rest := by
  simp [scanSymbol, pair]

theorem scanSymbol_single {c : Char} {kind : TokenKind} (single : TokenKind.ofSymbol c = some kind)
    {rest : List Char} (ends : kind.endsBefore rest = true) :
    scanSymbol c rest = .token kind [c] rest := by
  have noPair : ∀ pair, TokenKind.ofPair c = some pair → rest.head? ≠ some '=' := by
    intro pair h
    have listed : c = '=' ∨ c = '!' ∨ c = '<' ∨ c = '>' := by
      unfold TokenKind.ofPair at h
      split at h <;> simp_all
    rcases listed with rfl | rfl | rfl | rfl <;> cases single <;>
      simpa [TokenKind.endsBefore] using ends
  have noFraction : ¬(decide (c = '.') && startsWithDigit rest) = true := by
    simp only [Bool.and_eq_true, decide_eq_true_eq, not_and]
    rintro rfl
    cases single
    simpa [TokenKind.endsBefore] using ends
  unfold scanSymbol
  split
  · rename_i pair
    exact absurd rfl (noPair _ pair)
  · rw [if_neg noFraction, single]

theorem scanSymbol_ends {c : Char} {cs : List Char} {kind : TokenKind}
    (single : TokenKind.ofSymbol c = some kind)
    (noPair : ∀ pair, TokenKind.ofPair c = some pair → cs.head? ≠ some '=')
    (noFraction : ¬(decide (c = '.') && startsWithDigit cs) = true) :
    kind.endsBefore cs = true := by
  unfold TokenKind.ofSymbol at single
  split at single <;> cases single
  all_goals first
    | rfl
    | simpa [TokenKind.endsBefore] using noFraction
    | simpa [TokenKind.endsBefore] using noPair _ rfl

theorem scanned_symbol {c : Char} {cs text rest : List Char} {kind : TokenKind}
    (notQuote : ¬(c = '"' || c = '\'') = true) (notName : ¬startsName c = true)
    (notDigit : ¬isDigit c = true) (h : scanSymbol c cs = .token kind text rest) :
    (text = [c] ∧ TokenKind.ofSymbol c = some kind ∨
      text = [c, '='] ∧ TokenKind.ofPair c = some kind) ∧ Scanned (c :: cs) kind text rest := by
  have symbol (more : List Char) : scan (c :: more) = scanSymbol c more := by
    rw [scan_cons, if_neg notQuote, if_neg notName, if_neg notDigit]
  rw [scanSymbol.eq_def] at h
  split at h
  · rename_i pair
    cases h
    refine ⟨.inr ⟨rfl, pair⟩, rfl, ?_, fun more _ => ?_⟩
    · unfold TokenKind.ofPair at pair
      split at pair <;> cases pair <;> rfl
    · rw [List.cons_append, List.cons_append, symbol]
      exact scanSymbol_pair pair more
  · rename_i cs _ _ noPair
    have noPair : ∀ pair, TokenKind.ofPair c = some pair → cs.head? ≠ some '=' := by
      intro pair same head
      cases cs with
      | nil => cases head
      | cons d cs =>
        cases head
        exact noPair _ _ same rfl
    split at h
    · cases h
    · rename_i noFraction
      cases single : TokenKind.ofSymbol c with
      | none =>
        rw [single] at h
        cases h
      | some found =>
        rw [single] at h
        cases h
        refine ⟨.inl ⟨rfl, rfl⟩, rfl, scanSymbol_ends single noPair noFraction, fun more ends => ?_⟩
        rw [List.cons_append, symbol]
        exact scanSymbol_single single ends

/-- Every scan of a token is of this kind, and only the end of a text gives the end of the input. -/
theorem scanned {cs text rest : List Char} {kind : TokenKind}
    (h : scan cs = .token kind text rest) : Scanned cs kind text rest := by
  cases cs with
  | nil =>
    cases h
    exact ⟨rfl, rfl, fun more ends => by simp_all [TokenKind.endsBefore, scan]⟩
  | cons c cs =>
    rw [scan_cons] at h
    split at h
    · exact (scanned_string ‹_› h).2
    · split at h
      · exact (scanned_name ‹_› ‹_› h).2
      · split at h
        · exact (scanned_number ‹_› ‹_› ‹_› h).2
        · exact (scanned_symbol ‹_› ‹_› ‹_› h).2

end RecordPipeline
