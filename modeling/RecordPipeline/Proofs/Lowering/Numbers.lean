import RecordPipeline.Expr.Lowering
import RecordPipeline.Proofs.Lexing.Spelling
import RecordPipeline.Proofs.Number.Literals

/-!
Number literals. A number of a text is digits, a fraction where there is one, and exponents: the one
flag of the scanner keeps a second point out, and a point behind an exponent, but no exponent behind an
exponent. It can be read where it has one exponent at most, which is all that is asked of it; a literal
with more of them is the only one that lowering fails at.
-/

namespace RecordPipeline

open Text Number

structure ExponentSpelling where
  mark : Char
  sign : Option Char
  digits : List Char

/-- The digits, the digits behind the point, of which there are none without a point, and the
exponents. -/
structure NumberSpelling where
  whole : List Char
  fraction : List Char
  exponents : List ExponentSpelling

namespace ExponentSpelling

def text (e : ExponentSpelling) : List Char :=
  e.mark :: (e.sign.toList ++ e.digits)

structure WellFormed (e : ExponentSpelling) : Prop where
  mark : e.mark = 'e' ∨ e.mark = 'E'
  sign : ∀ c ∈ e.sign, c = '+' ∨ c = '-'
  filled : e.digits ≠ []
  digits : ∀ c ∈ e.digits, isDigit c = true

end ExponentSpelling

namespace NumberSpelling

def point (n : NumberSpelling) : List Char :=
  if n.fraction = [] then [] else '.' :: n.fraction

def powers (n : NumberSpelling) : List Char :=
  n.exponents.flatMap ExponentSpelling.text

def text (n : NumberSpelling) : List Char :=
  n.whole ++ (n.point ++ n.powers)

def isFloat (n : NumberSpelling) : Bool :=
  !n.fraction.isEmpty || !n.exponents.isEmpty

structure Spelled (n : NumberSpelling) : Prop where
  whole : ∀ c ∈ n.whole, isDigit c = true
  fraction : ∀ c ∈ n.fraction, isDigit c = true
  exponents : ∀ e ∈ n.exponents, e.WellFormed

structure WellFormed (n : NumberSpelling) : Prop extends n.Spelled where
  filled : n.whole ≠ []

variable {n : NumberSpelling}

theorem Spelled.powers_ends (h : n.Spelled) : startsWithDigit n.powers = false := by
  rw [powers]
  cases same : n.exponents with
  | nil => rfl
  | cons e later =>
    have mark := (h.exponents e (by simp [same])).mark
    rw [List.flatMap_cons, ExponentSpelling.text, List.cons_append]
    rcases mark with mark | mark <;> rw [mark] <;> rfl

theorem Spelled.point_ends (h : n.Spelled) : startsWithDigit (n.point ++ n.powers) = false := by
  rw [point]
  split
  · exact h.powers_ends
  · rfl

theorem Spelled.filled_of_startsWithDigit (h : n.Spelled) (starts : startsWithDigit n.text = true) :
    n.whole ≠ [] := by
  intro empty
  rw [text, empty, List.nil_append, h.point_ends] at starts
  cases starts

end NumberSpelling

namespace NumberSpan

/-- What the scanner takes, with or without a point or an exponent behind it. There is no second point,
and the flag is up in the end where there is a point or an exponent. -/
structure Takes (span : NumberSpan) (isFloat : Bool) (n : NumberSpelling) : Prop extends n.Spelled where
  text : span.text = n.text
  flag : span.isFloat = (isFloat || n.isFloat)
  once : isFloat = true → n.fraction = []

variable {span : NumberSpan} {isFloat : Bool} {n : NumberSpelling}

theorem takes_nothing (rest : List Char) : Takes ⟨[], rest, isFloat⟩ isFloat ⟨[], [], []⟩ where
  whole := by simp
  fraction := by simp
  exponents := by simp
  text := rfl
  flag := (Bool.or_false isFloat).symm
  once := fun _ => rfl

theorem Takes.digit {c : Char} (h : Takes span isFloat n) (digit : isDigit c = true) :
    Takes (span.push c) isFloat { n with whole := c :: n.whole } where
  whole := List.forall_mem_cons.2 ⟨digit, h.whole⟩
  fraction := h.fraction
  exponents := h.exponents
  text := congrArg (c :: ·) h.text
  flag := h.flag
  once := h.once

theorem Takes.point (h : Takes span true n) (filled : n.whole ≠ []) :
    Takes (span.push '.') false ⟨[], n.whole, n.exponents⟩ where
  whole := by simp
  fraction := h.whole
  exponents := h.exponents
  text := by
    simp [push, h.text, NumberSpelling.text, NumberSpelling.point, NumberSpelling.powers, h.once rfl,
      filled]
  flag := by simp [push, h.flag, NumberSpelling.isFloat, filled]
  once := nofun

theorem Takes.exponent {mark : Char} (sign : Option Char) (h : Takes span true n)
    (marked : mark = 'e' ∨ mark = 'E') (signed : ∀ c ∈ sign, c = '+' ∨ c = '-') (filled : n.whole ≠ []) :
    Takes { span with text := mark :: (sign.toList ++ span.text) } isFloat
      ⟨[], [], ⟨mark, sign, n.whole⟩ :: n.exponents⟩ where
  whole := by simp
  fraction := by simp
  exponents := List.forall_mem_cons.2 ⟨⟨marked, signed, filled, h.whole⟩, h.exponents⟩
  text := by
    simp [h.text, NumberSpelling.text, NumberSpelling.point, NumberSpelling.powers, h.once rfl,
      ExponentSpelling.text]
  flag := by simp [NumberSpelling.isFloat, h.flag]
  once := fun _ => rfl

theorem Takes.filled {cs : List Char} (h : Takes (spanNumber isFloat cs) isFloat n)
    (starts : startsWithDigit cs = true) : n.whole ≠ [] := by
  refine h.filled_of_startsWithDigit ?_
  rw [← h.text, ← List.append_nil (spanNumber isFloat cs).text]
  exact startsWithDigit_spanNumber starts isFloat []

theorem takes_spanNumber (isFloat : Bool) (cs : List Char) :
    ∃ n, Takes (spanNumber isFloat cs) isFloat n := by
  have marked {c : Char} (exponent : (c = 'e' || c = 'E') = true) : c = 'e' ∨ c = 'E' := by
    simpa using exponent
  fun_induction spanNumber isFloat cs with
  | case1 | case5 | case7 | case8 => exact ⟨_, takes_nothing _⟩
  | case2 isFloat c cs digit ih =>
    obtain ⟨n, takes⟩ := ih
    exact ⟨_, takes.digit digit⟩
  | case3 isFloat c cs notDigit point ih =>
    obtain ⟨n, takes⟩ := ih
    simp only [Bool.and_eq_true, decide_eq_true_eq, Bool.not_eq_true'] at point
    obtain ⟨⟨rfl, rfl⟩, digits⟩ := point
    exact ⟨_, takes.point (takes.filled digits)⟩
  | case4 isFloat c cs notDigit notPoint exponent digits ih =>
    obtain ⟨n, takes⟩ := ih
    exact ⟨_, takes.exponent none (marked exponent) (by simp) (takes.filled digits)⟩
  | case6 isFloat c notDigit exponent sign digits signed notPoint notDigits ih =>
    obtain ⟨n, takes⟩ := ih
    simp only [Bool.and_eq_true, isSign, Bool.or_eq_true, beq_iff_eq] at signed
    exact ⟨_, takes.exponent (some sign) (marked exponent) (by simpa using signed.1)
      (takes.filled signed.2)⟩

end NumberSpan

theorem Lexeme.span_of_number {kind : TokenKind} {text : List Char} (h : Lexeme kind text)
    (number : kind = .integer ∨ kind = .float) :
    (spanNumber false text).text = text ∧ ((spanNumber false text).isFloat = true ↔ kind = .float) := by
  have starts := h.startsWithDigit_of_number number
  obtain ⟨c, cs, rfl, -⟩ := h.starts
  have digit : isDigit c = true := starts
  obtain ⟨noQuote, noName⟩ := not_quote_or_name_of_digit digit
  have scans := h.scans
  rw [scan_cons, if_neg noQuote, if_neg noName, if_pos digit, scanNumber] at scans
  split at scans
  · cases scans
  · simp only [Scan.token.injEq] at scans
    obtain ⟨same, spelled, -⟩ := scans
    refine ⟨spelled, ?_⟩
    rw [← same]
    split <;> simp [*]

theorem Lexeme.spelling_of_number {kind : TokenKind} {text : List Char} (h : Lexeme kind text)
    (number : kind = .integer ∨ kind = .float) :
    ∃ n : NumberSpelling, n.WellFormed ∧ (n.isFloat = true ↔ kind = .float) ∧ text = n.text := by
  obtain ⟨spelled, float⟩ := h.span_of_number number
  obtain ⟨n, takes⟩ := NumberSpan.takes_spanNumber false text
  have same := takes.text
  have flag := takes.flag
  rw [spelled] at same
  rw [Bool.false_or] at flag
  rw [flag] at float
  exact ⟨n, ⟨takes.toSpelled, takes.filled (h.startsWithDigit_of_number number)⟩, float, same⟩

theorem Lexeme.digits_of_integer {text : List Char} (h : Lexeme .integer text) :
    ∀ c ∈ text, isDigit c = true := by
  obtain ⟨n, wellFormed, float, rfl⟩ := h.spelling_of_number (.inl rfl)
  have whole : n.isFloat = false := by
    rw [Bool.eq_false_iff, Ne, float]
    exact nofun
  simp only [NumberSpelling.isFloat, Bool.or_eq_false_iff, Bool.not_eq_false', List.isEmpty_iff] at whole
  rw [NumberSpelling.text, NumberSpelling.point, NumberSpelling.powers, whole.1, whole.2, if_pos rfl,
    List.flatMap_nil, List.append_nil, List.append_nil]
  exact wellFormed.whole

theorem readFloat_of_digits {digits : List Char} (filled : digits ≠ [])
    (all : ∀ c ∈ digits, isDigit c = true) : ∃ x, readFloat digits = some x := by
  have wellFormed : (Numeral.mk digits [] none).WellFormed := ⟨filled, all, by simp⟩
  have read := Numeral.readFloat_eq wellFormed
  simp only [Numeral.text, Numeral.point, Numeral.power, List.append_nil, if_true] at read
  exact ⟨_, read⟩

namespace ExponentSpelling

variable {e : ExponentSpelling}

theorem all_digits_flatMap {exponents : List ExponentSpelling}
    (wellFormed : ∀ e ∈ exponents, e.WellFormed) :
    (exponents.flatMap text).all isDigit = decide (exponents.length ≤ 0) := by
  cases exponents with
  | nil => rfl
  | cons e later =>
    rw [List.flatMap_cons, text, List.cons_append, List.all_cons]
    rcases (wellFormed e (by simp)).mark with mark | mark <;> rw [mark] <;> rfl

theorem readExponent_isSome (h : e.WellFormed) (rest : List Char) :
    (readExponent (e.sign.toList ++ (e.digits ++ rest))).isSome = rest.all isDigit := by
  have starts := startsWithDigit_append h.filled h.digits rest
  have sign : (takeSign (e.sign.toList ++ (e.digits ++ rest))).2 = e.digits ++ rest := by
    cases same : e.sign with
    | none => exact congrArg Prod.snd (Numeral.takeSign_of_digit starts)
    | some c => rcases h.sign c (by simp [same]) with rfl | rfl <;> rfl
  have all : (e.digits ++ rest).all isDigit = rest.all isDigit := by
    rw [List.all_append, List.all_eq_true.2 h.digits, Bool.true_and]
  rw [readExponent]
  dsimp only
  rw [sign, all]
  cases rest.all isDigit <;> simp [h.filled]

end ExponentSpelling

namespace NumberSpelling

variable {n : NumberSpelling}

/-- A number can be read where it has one exponent at most. -/
theorem WellFormed.readUnsigned_isSome (h : n.WellFormed) (negative : Bool) :
    (readUnsigned negative n.text).isSome = decide (n.exponents.length ≤ 1) := by
  have span := spanDigits_of_append h.fraction h.powers_ends
  rw [text, readUnsigned, spanDigits_of_append h.whole h.point_ends, point]
  rw [powers] at span ⊢
  cases same : n.exponents with
  | nil =>
    rw [same, List.flatMap_nil, List.append_nil] at span
    by_cases noPoint : n.fraction = []
    · simp [h.filled, noPoint]
    · simp [h.filled, noPoint, span]
  | cons e later =>
    have wellFormed : ∀ other ∈ e :: later, other.WellFormed := fun other member =>
      h.exponents other (by rwa [same])
    have reads := ExponentSpelling.readExponent_isSome (wellFormed e (by simp))
      (later.flatMap ExponentSpelling.text)
    rw [ExponentSpelling.all_digits_flatMap fun other member => wellFormed other (by simp [member])]
      at reads
    rw [same, List.flatMap_cons, ExponentSpelling.text, List.cons_append, List.append_assoc] at span
    rw [List.flatMap_cons, ExponentSpelling.text, List.cons_append, List.append_assoc]
    rcases (wellFormed e (by simp)).mark with mark | mark
    all_goals
      rw [mark] at span ⊢
      by_cases noPoint : n.fraction = []
      · simp [h.filled, noPoint, reads]
      · simp [h.filled, noPoint, span, reads]

end NumberSpelling

namespace Node

theorem lower_integer {t : Token} (kind : t.kind = .integer) (filled : t.text.toList ≠ [])
    (digits : ∀ c ∈ t.text.toList, isDigit c = true) : ∃ e, (leaf t).lower = .ok e := by
  obtain ⟨x, read⟩ := readFloat_of_digits filled digits
  simp only [lower, literal, kind, integerLiteral, read]
  split <;> exact ⟨_, rfl⟩

theorem lower_float {t : Token} {n : NumberSpelling} (kind : t.kind = .float) (wellFormed : n.WellFormed)
    (spelled : t.text.toList = n.text) :
    if n.exponents.length ≤ 1 then ∃ x, (leaf t).lower = .ok (.float x)
    else (leaf t).lower = .error ⟨.invalidFloat t.text, t.offset⟩ := by
  have starts : startsWithDigit n.text = true :=
    startsWithDigit_append wellFormed.filled wellFormed.whole (n.point ++ n.powers)
  have reads := wellFormed.readUnsigned_isSome false
  rw [← Numeral.readFloat_of_digit starts] at reads
  simp only [lower, literal, kind, floatLiteral, spelled]
  split
  · rename_i single
    rw [decide_eq_true single] at reads
    obtain ⟨x, read⟩ := Option.isSome_iff_exists.1 reads
    exact ⟨x, by rw [read]⟩
  · rename_i several
    rw [decide_eq_false several, Option.isSome_eq_false_iff, Option.isNone_iff_eq_none] at reads
    rw [reads]

end Node

theorem lexeme_of_tokenize {source : String} {tokens : List Token} (read : tokenize source = .ok tokens)
    {t : Token} (member : t ∈ tokens) (notEnd : t.kind ≠ .endOfInput) : Lexeme t.kind t.text.toList := by
  obtain ⟨body, ending, rfl, spells, kind⟩ := spells_of_tokenize read
  rcases List.mem_append.1 member with inside | last
  · exact spells.lexemes t inside
  · rw [List.mem_singleton.1 last] at notEnd
    exact absurd kind notEnd

/-- The integers of a text are digits and always lowered. Its floats are digits with a fraction or
exponents, and lowered where they have one exponent at most. -/
theorem numbers_of_tokenize {source : String} {tokens : List Token}
    (read : tokenize source = .ok tokens) {t : Token} (member : t ∈ tokens) :
    (t.kind = .integer → t.text.toList ≠ [] ∧ (∀ c ∈ t.text.toList, isDigit c = true) ∧
      ∃ e, (Node.leaf t).lower = .ok e) ∧
    (t.kind = .float → ∃ n : NumberSpelling, n.WellFormed ∧ n.isFloat = true ∧
      t.text.toList = n.text ∧
      if n.exponents.length ≤ 1 then ∃ x, (Node.leaf t).lower = .ok (.float x)
      else (Node.leaf t).lower = .error ⟨.invalidFloat t.text, t.offset⟩) := by
  constructor
  · intro kind
    have lexeme := lexeme_of_tokenize read member (by simp [kind])
    rw [kind] at lexeme
    exact ⟨lexeme.ne_nil, lexeme.digits_of_integer,
      Node.lower_integer kind lexeme.ne_nil lexeme.digits_of_integer⟩
  · intro kind
    have lexeme := lexeme_of_tokenize read member (by simp [kind])
    rw [kind] at lexeme
    obtain ⟨n, wellFormed, isFloat, spelled⟩ := lexeme.spelling_of_number (.inr rfl)
    exact ⟨n, wellFormed, isFloat.2 rfl, spelled, Node.lower_float kind wellFormed spelled⟩

/-- A whole number and one with a fraction and an exponent. -/
theorem numbers_of_tokenize_fraction :
    tokenize "07/2.5E-3" = .ok [⟨.integer, "07", 0⟩, ⟨.slash, "/", 2⟩, ⟨.float, "2.5E-3", 3⟩,
        ⟨.endOfInput, "", 9⟩] ∧
      (∃ e, (Node.leaf ⟨.integer, "07", 0⟩).lower = .ok e) ∧
      ∃ n : NumberSpelling, n.WellFormed ∧ n.isFloat = true ∧ "2.5E-3".toList = n.text ∧
        if n.exponents.length ≤ 1 then ∃ x, (Node.leaf ⟨.float, "2.5E-3", 3⟩).lower = .ok (.float x)
        else (Node.leaf ⟨.float, "2.5E-3", 3⟩).lower = .error ⟨.invalidFloat "2.5E-3", 3⟩ := by
  have read : tokenize "07/2.5E-3" = .ok [⟨.integer, "07", 0⟩, ⟨.slash, "/", 2⟩,
      ⟨.float, "2.5E-3", 3⟩, ⟨.endOfInput, "", 9⟩] := by cbv
  have whole := (numbers_of_tokenize read (t := ⟨.integer, "07", 0⟩) (by simp)).1 rfl
  exact ⟨read, whole.2.2, (numbers_of_tokenize read (t := ⟨.float, "2.5E-3", 3⟩) (by simp)).2 rfl⟩

/-- Two exponents are scanned as one float, which no number with one exponent is spelled as, and it is
not lowered. -/
theorem two_exponents_fail :
    tokenize "1e5e5" = .ok [⟨.float, "1e5e5", 0⟩, ⟨.endOfInput, "", 5⟩] ∧
      (¬∃ n : NumberSpelling, n.WellFormed ∧ n.exponents.length ≤ 1 ∧ "1e5e5".toList = n.text) ∧
      (Node.leaf ⟨.float, "1e5e5", 0⟩).lower = .error ⟨.invalidFloat "1e5e5", 0⟩ := by
  have unread : readUnsigned false "1e5e5".toList = none := by rfl
  refine ⟨by cbv, ?_, by rfl⟩
  rintro ⟨n, wellFormed, single, spelled⟩
  have reads := wellFormed.readUnsigned_isSome false
  rw [← spelled, unread, decide_eq_true single] at reads
  cases reads

end RecordPipeline
