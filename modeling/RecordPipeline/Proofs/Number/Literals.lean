import RecordPipeline.Proofs.Lexing.Joining
import RecordPipeline.Proofs.Number.Bits
import RecordPipeline.Proofs.Number.Numeral
import RecordPipeline.Proofs.Number.Reading

/-!
Number literals read back. The literal of a finite double is a numeral with a point or an exponent,
whose decimal lies in the interval of the double; the literal of an integer is its digits.
-/

namespace RecordPipeline

open Text

namespace Numeral

variable {n : Numeral}

def decimal (n : Numeral) : Binary64.Digits :=
  ⟨Number.digitsValue (n.whole ++ n.fraction), n.exponent.getD 0 - n.fraction.length⟩

theorem lexeme (h : n.WellFormed) : Lexeme (if n.isFloat then .float else .integer) n.text := by
  have span := spanNumber_text h
  have starts : startsWithDigit n.text = true :=
    startsWithDigit_append h.filled h.whole (n.point ++ n.power)
  cases same : n.text with
  | nil =>
    rw [same] at starts
    cases starts
  | cons c cs =>
    rw [same] at span starts
    have digit : isDigit c = true := starts
    obtain ⟨noQuote, noName⟩ := not_quote_or_name_of_digit digit
    refine ⟨?_, c, cs, rfl, ?_⟩
    · rw [scan_cons, if_neg noQuote, if_neg noName, if_pos digit, scanNumber, span]
      rfl
    · have all : (['0', '1', '2', '3', '4', '5', '6', '7', '8', '9'].all fun c => !isBlank c) = true := by
        decide
      simpa using List.all_eq_true.1 all c (digit_cases digit)

theorem readFloat_eq (h : n.WellFormed) :
    Number.readFloat n.text = some (Number.ofDecimal false n.decimal.digits n.decimal.exponent) := by
  rw [readFloat_text h, readUnsigned_text h]
  rfl

end Numeral

namespace Binary64

/-- A numeral with a point or an exponent whose decimal is read as this double. -/
structure Writes (n : Numeral) (bits : Nat) : Prop extends n.WellFormed where
  isFloat : n.isFloat = true
  value : Number.ofDecimal false n.decimal.digits n.decimal.exponent = ofMagnitude false bits

namespace Digits

def scientificNumeral (d : Digits) : Numeral :=
  let digits := Nat.toDigits 10 d.digits
  ⟨digits.take 1, digits.drop 1, some (d.exponent + (digits.length - 1 : Nat))⟩

theorem scientific_text (d : Digits) : d.scientific.toList = d.scientificNumeral.text := by
  obtain ⟨first, digits, same⟩ := List.exists_cons_of_ne_nil (Nat.toDigits_ne_nil (n := d.digits) (b := 10))
  simp only [scientific, scientificNumeral, Numeral.text, Numeral.point, Numeral.power, same]
  cases digits with
  | nil => simp
  | cons second digits => simp

theorem scientific_wellFormed (d : Digits) : d.scientificNumeral.WellFormed where
  filled := by simp [scientificNumeral]
  whole c member := isDigit_of_mem_toDigits (List.mem_of_mem_take member)
  fraction c member := isDigit_of_mem_toDigits (List.mem_of_mem_drop member)

theorem scientific_decimal (d : Digits) : d.scientificNumeral.decimal = d := by
  have length : 0 < (Nat.toDigits 10 d.digits).length := Nat.length_toDigits_pos
  simp only [Numeral.decimal, scientificNumeral, List.take_append_drop, Number.digitsValue_toDigits,
    Option.getD_some, List.length_drop]
  congr 1
  omega

def positionalNumeral (d : Digits) : Numeral :=
  let digits := Nat.toDigits 10 d.digits
  let places := (-d.exponent).toNat
  if digits.length ≤ places then
    ⟨['0'], List.replicate (places - digits.length) '0' ++ digits, none⟩
  else ⟨digits.take (digits.length - places), digits.drop (digits.length - places), none⟩

theorem positional_text {d : Digits} (fraction : d.exponent < 0) :
    d.positional.toList = d.positionalNumeral.text := by
  have filled : 0 < (Nat.toDigits 10 d.digits).length := Nat.length_toDigits_pos
  simp only [positional, positionalNumeral]
  rw [if_neg (by omega)]
  split
  · have some : List.replicate ((-d.exponent).toNat - (Nat.toDigits 10 d.digits).length) '0' ++
        Nat.toDigits 10 d.digits ≠ [] := by simp
    simp [Numeral.text, Numeral.point, Numeral.power, zeros]
  · have some : (Nat.toDigits 10 d.digits).drop
        ((Nat.toDigits 10 d.digits).length - (-d.exponent).toNat) ≠ [] := by
      rw [Ne, List.drop_eq_nil_iff]
      omega
    simp [Numeral.text, Numeral.point, Numeral.power, some]

theorem positional_wellFormed (d : Digits) : d.positionalNumeral.WellFormed := by
  have all : ∀ c ∈ Nat.toDigits 10 d.digits, isDigit c = true := fun c => isDigit_of_mem_toDigits
  rw [positionalNumeral]
  split
  · refine ⟨by simp, by simp [isDigit], fun c member => ?_⟩
    rcases List.mem_append.1 member with zero | digit
    · rw [List.eq_of_mem_replicate zero]
      rfl
    · exact all c digit
  · refine ⟨?_, fun c member => all c (List.mem_of_mem_take member),
      fun c member => all c (List.mem_of_mem_drop member)⟩
    simp
    omega

theorem positional_decimal {d : Digits} (fraction : d.exponent < 0) :
    d.positionalNumeral.decimal = d ∧ d.positionalNumeral.isFloat = true := by
  have filled : 0 < (Nat.toDigits 10 d.digits).length := Nat.length_toDigits_pos
  have places : (-d.exponent).toNat = -d.exponent := by omega
  rw [positionalNumeral]
  split
  · rename_i short
    refine ⟨?_, by simp [Numeral.isFloat]⟩
    have value : Number.digitsValue ('0' :: (List.replicate
        ((-d.exponent).toNat - (Nat.toDigits 10 d.digits).length) '0' ++
          Nat.toDigits 10 d.digits)) = d.digits :=
      (Number.digitsValue_zeros_append (_ + 1) _).trans (Number.digitsValue_toDigits _)
    simp only [Numeral.decimal, List.singleton_append, value, Option.getD_none, List.length_append,
      List.length_replicate]
    congr 1
    omega
  · simp only [Numeral.decimal, List.take_append_drop, Number.digitsValue_toDigits,
      Option.getD_none, List.length_drop, Numeral.isFloat]
    refine ⟨?_, ?_⟩
    · congr 1
      omega
    · simp
      omega

end Digits

section Doubles

variable {bits : Nat}

theorem steps_ofMagnitude (h : bits ≤ infinityBits) :
    steps (ofMagnitude false bits) = stepsOfMagnitude bits := by
  rw [steps, isNegative_ofMagnitude h, if_neg Bool.false_ne_true, magnitude_ofMagnitude h]

theorem sign_ofMagnitude (h : bits ≤ infinityBits) : sign (ofMagnitude false bits) = "" := by
  rw [sign, isNegative_ofMagnitude h, if_neg Bool.false_ne_true]

theorem isFinite_ofMagnitude (finite : bits < infinityBits) :
    isFinite (ofMagnitude false bits) = true := by
  rw [isFinite, magnitude_ofMagnitude (Nat.le_of_lt finite)]
  exact decide_eq_true finite

theorem isWhole_ofMagnitude (finite : bits < infinityBits) :
    isWhole (ofMagnitude false bits) = true ↔ stepsOfMagnitude bits % stepsPerOne = 0 := by
  rw [isWhole, isFinite_ofMagnitude finite, Bool.true_and, beq_iff_eq,
    steps_ofMagnitude (Nat.le_of_lt finite)]
  omega

theorem stepsOfMagnitude_pos (pos : 0 < bits) : 0 < stepsOfMagnitude bits := by
  rw [stepsOfMagnitude_eq]
  exact Nat.mul_pos (gapsOf_pos pos) (gapOf_pos bits)

theorem whole_of_holds {num : Nat} (h : (intervalOf bits).Holds num 1) :
    stepsOfMagnitude bits % stepsPerOne = 0 := by
  obtain ⟨low, high⟩ := h.bounds (by decide)
  have gap := gapOf_pos bits
  have lower : lowerGap bits (1 * gapOf bits) ≤ 2 * gapOf bits := by
    rw [lowerGap]
    split <;> omega
  rw [Nat.one_mul] at low high lower
  rw [stepsOfMagnitude_eq]
  by_cases large : 1074 ≤ bits / binade - 1
  · obtain ⟨more, same⟩ := Nat.exists_eq_add_of_le large
    refine Nat.mod_eq_zero_of_dvd (Nat.dvd_trans ?_ (Nat.dvd_mul_left ..))
    rw [gapOf, same, twoTo_add]
    exact Nat.dvd_mul_right ..
  · obtain ⟨more, same⟩ := Nat.exists_eq_add_of_le (Nat.le_of_not_le large)
    have one : stepsPerOne = twoTo more * gapOf bits := by
      rw [stepsPerOne, same, twoTo_add, Nat.mul_comm, gapOf]
    rw [one] at low high ⊢
    rw [← Nat.mul_assoc num] at low high
    have equal : gapsOf bits = num * twoTo more := by
      rcases Nat.lt_trichotomy (gapsOf bits) (num * twoTo more) with less | equal | more
      · have apart := Nat.mul_le_mul_right (gapOf bits) less
        rw [Nat.succ_mul] at apart
        omega
      · exact equal
      · have apart := Nat.mul_le_mul_right (gapOf bits) more
        rw [Nat.succ_mul] at apart
        omega
    rw [equal, Nat.mul_assoc]
    exact Nat.mul_mod_left ..

def wholeNumeral (size : Nat) : Numeral :=
  ⟨Nat.toDigits 10 size, ['0'], none⟩

theorem wholeNumeral_wellFormed (size : Nat) : (wholeNumeral size).WellFormed where
  filled := Nat.toDigits_ne_nil
  whole _ := isDigit_of_mem_toDigits
  fraction c member := by
    rw [List.mem_singleton.1 member]
    rfl

theorem wholeNumeral_decimal (size : Nat) : (wholeNumeral size).decimal = ⟨10 * size, -1⟩ := by
  have value : Number.digitsValue (Nat.toDigits 10 size ++ ['0']) = 10 * size := by
    have last := Nat.ofDigitChars_append (b := 10) (l := Nat.toDigits 10 size) (m := ['0']) 0
    rw [Nat.ofDigitChars_ten_toDigits] at last
    exact last
  rw [wholeNumeral, Numeral.decimal, value]
  rfl

theorem wholeText_eq (finite : bits < infinityBits) :
    (wholeText (ofMagnitude false bits)).toList =
      (wholeNumeral (stepsOfMagnitude bits / stepsPerOne)).text := by
  have size : (trunc (ofMagnitude false bits)).natAbs = stepsOfMagnitude bits / stepsPerOne := by
    rw [trunc, steps_ofMagnitude (Nat.le_of_lt finite)]
    rfl
  rw [wholeText, size, sign_ofMagnitude (Nat.le_of_lt finite)]
  simp [wholeNumeral, Numeral.text, Numeral.point, Numeral.power]

theorem holds_of_value {num den : Nat} (pos : 0 < bits) (posDen : 0 < den)
    (same : num * stepsPerOne = stepsOfMagnitude bits * den) :
    (intervalOf bits).Holds num den := by
  have gap := gapOf_pos bits
  have value : num * (intervalOf bits).den = (intervalOf bits).value * den := by
    calc num * (4 * stepsPerOne)
        = 4 * (num * stepsPerOne) := Nat.mul_left_comm ..
      _ = 4 * stepsOfMagnitude bits * den := by rw [same, Nat.mul_assoc]
  have low : (intervalOf bits).low < (intervalOf bits).value := by
    have least := Nat.le_mul_of_pos_left (gapOf bits) (gapsOf_pos pos)
    rw [low_intervalOf, value_intervalOf, lowerGap]
    split <;> omega
  refine ⟨.inl ?_, .inl ?_⟩
  · rw [value]
    exact Nat.mul_lt_mul_of_pos_right low posDen
  · rw [value]
    exact Nat.mul_lt_mul_of_pos_right (ordered_intervalOf bits).high posDen

theorem ofDecimal_whole (finite : bits < infinityBits)
    (whole : stepsOfMagnitude bits % stepsPerOne = 0) :
    Number.ofDecimal false (10 * (stepsOfMagnitude bits / stepsPerOne)) (-1) =
      ofMagnitude false bits := by
  by_cases zero : bits = 0
  · have none : stepsOfMagnitude 0 = 0 := rfl
    rw [zero, none, Nat.zero_div, Nat.mul_zero, Number.ofDecimal, if_pos (.inl rfl)]
  have pos := Nat.pos_of_ne_zero zero
  have exact : stepsOfMagnitude bits / stepsPerOne * stepsPerOne = stepsOfMagnitude bits :=
    Nat.div_mul_cancel (Nat.dvd_of_mod_eq_zero whole)
  refine Number.ofDecimal_of_holds (d := ⟨_, -1⟩) pos finite (holds_of_value pos (tenTo_pos 1) ?_)
  calc 10 * (stepsOfMagnitude bits / stepsPerOne) * tenTo 0 * stepsPerOne
      = 10 * (stepsOfMagnitude bits / stepsPerOne * stepsPerOne) := by
        rw [tenTo_zero, Nat.mul_one, Nat.mul_assoc]
    _ = stepsOfMagnitude bits * tenTo 1 := by rw [exact, Nat.mul_comm, tenTo_succ, tenTo_zero]

theorem wholeText_writes (finite : bits < infinityBits)
    (whole : stepsOfMagnitude bits % stepsPerOne = 0) :
    ∃ n, Writes n bits ∧ (wholeText (ofMagnitude false bits)).toList = n.text := by
  refine ⟨_, ⟨wholeNumeral_wellFormed _, rfl, ?_⟩, wholeText_eq finite⟩
  rw [wholeNumeral_decimal]
  exact ofDecimal_whole finite whole

theorem shortest_value (finite : bits < infinityBits) (pos : 0 < bits) :
    Number.ofDecimal false (shortest (ofMagnitude false bits)).digits
      (shortest (ofMagnitude false bits)).exponent = ofMagnitude false bits :=
  Number.ofDecimal_of_holds pos finite
    (shortest_holds (magnitude_ofMagnitude (Nat.le_of_lt finite)) pos)

theorem scientific_writes (finite : bits < infinityBits) (pos : 0 < bits) :
    Writes (shortest (ofMagnitude false bits)).scientificNumeral bits where
  toWellFormed := Digits.scientific_wellFormed _
  isFloat := by simp [Numeral.isFloat, Digits.scientificNumeral]
  value := by
    rw [Digits.scientific_decimal]
    exact shortest_value finite pos

theorem positional_writes (finite : bits < infinityBits) (pos : 0 < bits)
    (fraction : (shortest (ofMagnitude false bits)).exponent < 0) :
    Writes (shortest (ofMagnitude false bits)).positionalNumeral bits where
  toWellFormed := Digits.positional_wellFormed _
  isFloat := (Digits.positional_decimal fraction).2
  value := by
    rw [(Digits.positional_decimal fraction).1]
    exact shortest_value finite pos

theorem exponent_neg (finite : bits < infinityBits) (pos : 0 < bits)
    (fractional : stepsOfMagnitude bits % stepsPerOne ≠ 0) :
    (shortest (ofMagnitude false bits)).exponent < 0 := by
  have holds := shortest_holds (x := ofMagnitude false bits)
    (magnitude_ofMagnitude (Nat.le_of_lt finite)) pos
  refine Int.not_le.1 fun whole => fractional ?_
  rw [Digits.den, show (-(shortest (ofMagnitude false bits)).exponent).toNat = 0 by omega] at holds
  exact whole_of_holds holds

/-- The literal of a finite double is a numeral that is read as the double. -/
theorem literalText_writes (finite : bits < infinityBits) :
    ∃ n, Writes n bits ∧ (literalText (ofMagnitude false bits)).toList = n.text := by
  have bounded := Nat.le_of_lt finite
  have noSign (text : String) : sign (ofMagnitude false bits) ++ text = text := by
    rw [sign_ofMagnitude bounded, String.empty_append]
  have zero (none : bits = 0) : steps (ofMagnitude false bits) = 0 := by
    rw [steps_ofMagnitude bounded, none]
    rfl
  rw [literalText, isFinite_ofMagnitude finite, if_neg (by decide)]
  split
  · rename_i far
    have pos : 0 < bits := by
      refine Nat.pos_of_ne_zero fun none => ?_
      have notLarge : ¬tenTo 16 * stepsPerOne ≤ 0 :=
        Nat.not_le.2 (Nat.mul_pos (tenTo_pos 16) stepsPerOne_pos)
      rw [isLarge, isSmall, zero none, Int.natAbs_zero, decide_eq_false notLarge] at far
      cases far
    rw [noSign]
    exact ⟨_, scientific_writes finite pos, Digits.scientific_text _⟩
  · split
    · rename_i whole
      exact wholeText_writes finite ((isWhole_ofMagnitude finite).1 whole)
    · rename_i fractional
      rw [isWhole_ofMagnitude finite] at fractional
      have pos : 0 < bits := by
        refine Nat.pos_of_ne_zero fun none => fractional ?_
        have zero : stepsOfMagnitude 0 = 0 := rfl
        rw [none, zero, Nat.zero_mod]
      have negative := exponent_neg finite pos fractional
      have some : (steps (ofMagnitude false bits) == 0) = false := by
        rw [steps_ofMagnitude bounded, beq_eq_false_iff_ne]
        have positive := stepsOfMagnitude_pos pos
        omega
      rw [plainText, if_neg, if_neg, some, if_neg Bool.false_ne_true, noSign]
      · exact ⟨_, positional_writes finite pos negative, Digits.positional_text negative⟩
      · rw [isInfinite, magnitude_ofMagnitude bounded, beq_iff_eq]
        omega
      · rw [isNaN, magnitude_ofMagnitude bounded, decide_eq_true_iff]
        omega

theorem lexeme_literalText (finite : bits < infinityBits) :
    Lexeme .float (literalText (ofMagnitude false bits)).toList := by
  obtain ⟨n, writes, same⟩ := literalText_writes finite
  have lexeme := Numeral.lexeme writes.toWellFormed
  rwa [writes.isFloat, if_pos rfl, ← same] at lexeme

theorem readFloat_literalText (finite : bits < infinityBits) :
    Number.readFloat (literalText (ofMagnitude false bits)).toList =
      some (ofMagnitude false bits) := by
  obtain ⟨n, writes, same⟩ := literalText_writes finite
  rw [same, Numeral.readFloat_eq writes.toWellFormed, writes.value]

end Doubles

end Binary64

section Integers

theorem numeral_toDigits (size : Nat) :
    (Numeral.mk (Nat.toDigits 10 size) [] none).text = Nat.toDigits 10 size ∧
      (Numeral.mk (Nat.toDigits 10 size) [] none).WellFormed :=
  ⟨by simp [Numeral.text, Numeral.point, Numeral.power],
    Nat.toDigits_ne_nil, fun _ => isDigit_of_mem_toDigits, by simp⟩

theorem lexeme_toDigits (size : Nat) : Lexeme .integer (Nat.toDigits 10 size) := by
  obtain ⟨text, wellFormed⟩ := numeral_toDigits size
  have lexeme := Numeral.lexeme wellFormed
  rwa [text] at lexeme

theorem readInt_toDigits (size : Nat) :
    Number.readInt (Nat.toDigits 10 size) = Number.toInt64? size := by
  rw [Number.readInt, Numeral.takeSign_of_digit (startsWithDigit_toDigits _)]
  dsimp only
  rw [if_pos (digits_toDigits size), Number.digitsValue_toDigits, if_neg Bool.false_ne_true]

theorem readFloat_toDigits (size : Nat) :
    Number.readFloat (Nat.toDigits 10 size) = some (Number.ofDecimal false size 0) := by
  obtain ⟨text, wellFormed⟩ := numeral_toDigits size
  have read := Numeral.readFloat_eq wellFormed
  rw [text] at read
  simpa [Numeral.decimal, Number.digitsValue_toDigits] using read

variable {n : Int64}

theorem toList_toString_of_nonneg (h : 0 ≤ n.toInt) :
    (toString n.toInt).toList = Nat.toDigits 10 n.toInt.natAbs := by
  have spelled := Numeral.toList_repr n.toInt
  rwa [Numeral.minus, if_neg (Int.not_lt.2 h)] at spelled

theorem lexeme_toString (h : 0 ≤ n.toInt) : Lexeme .integer (toString n.toInt).toList := by
  rw [toList_toString_of_nonneg h]
  exact lexeme_toDigits _

theorem readInt_toString (h : 0 ≤ n.toInt) : Number.readInt (toString n.toInt).toList = some n := by
  rw [toList_toString_of_nonneg h, readInt_toDigits, Int.natAbs_of_nonneg h, Number.toInt64?_toInt]

end Integers

theorem Lexeme.startsWithDigit_of_number {kind : TokenKind} {text : List Char}
    (h : Lexeme kind text) (number : kind = .integer ∨ kind = .float) :
    startsWithDigit text = true := by
  obtain ⟨c, cs, rfl, -⟩ := h.starts
  have scans := h.scans
  rw [scan_cons] at scans
  split at scans
  · rcases number with rfl | rfl <;> cases (scanned_string ‹_› scans).1
  · split at scans
    · have word := ofWord_mem (String.ofList (c :: cs))
      rw [← (scanned_name ‹_› ‹_› scans).1] at word
      rcases number with rfl | rfl <;> exact absurd word (by decide)
    · split at scans
      · assumption
      · rcases (scanned_symbol ‹_› ‹_› ‹_› scans).1 with ⟨-, single⟩ | ⟨-, pair⟩
        · unfold TokenKind.ofSymbol at single
          split at single <;> rcases number with rfl | rfl <;> cases single
        · unfold TokenKind.ofPair at pair
          split at pair <;> rcases number with rfl | rfl <;> cases pair

theorem readInt_nonneg {cs : List Char} {n : Int64} (starts : startsWithDigit cs = true)
    (read : Number.readInt cs = some n) : 0 ≤ n.toInt := by
  rw [Number.readInt, Numeral.takeSign_of_digit starts] at read
  dsimp only at read
  split at read
  · rw [if_neg Bool.false_ne_true, Number.toInt64?] at read
    split at read
    · rename_i room
      cases read
      simp only [Number.minInt, Number.maxInt] at room
      rw [Int64.toInt_ofInt_of_le (by omega) (by omega)]
      exact Int.natCast_nonneg _
    · cases read
  · cases read

theorem ofDecimal_unsigned (digits : Nat) (exponent : Int) :
    ∃ bits ≤ Binary64.infinityBits,
      Number.ofDecimal false digits exponent = Binary64.ofMagnitude false bits := by
  rw [Number.ofDecimal]
  split
  · exact ⟨0, Nat.zero_le _, rfl⟩
  · split
    · exact ⟨_, Nat.le_refl _, rfl⟩
    · exact ⟨_, Nat.min_le_left _ _, rfl⟩

theorem readFloat_unsigned {cs : List Char} {x : Float} (starts : startsWithDigit cs = true)
    (read : Number.readFloat cs = some x) :
    ∃ bits ≤ Binary64.infinityBits, x = Binary64.ofMagnitude false bits := by
  rw [Numeral.readFloat_of_digit starts, Number.readUnsigned] at read
  dsimp only at read
  -- with a point or without one, what is read is a decimal
  split at read
  all_goals
    split at read
    · cases read
    · split at read
      · cases read
        exact ofDecimal_unsigned _ _
      · obtain ⟨exponent, -, rfl⟩ := Option.map_eq_some_iff.1 read
        exact ofDecimal_unsigned _ _
      · obtain ⟨exponent, -, rfl⟩ := Option.map_eq_some_iff.1 read
        exact ofDecimal_unsigned _ _
      · cases read

end RecordPipeline
