import RecordPipeline.Json.Printer
import RecordPipeline.Json.Reader
import RecordPipeline.Proofs.Json.Standard
import RecordPipeline.Proofs.Number.Numeral

/-!
Integers and strings in JSON. They are read from the front of any text, except that a number goes on
as long as there are digits, a point or an exponent, so what is behind an integer has to end it.
-/

namespace RecordPipeline

open Text

namespace Json

open Number

def endsNumber : List Char → Bool
  | [] => true
  | c :: _ => !isDigit c && c != '.' && c != 'e' && c != 'E'

section Ends

variable {rest : List Char} (ends : endsNumber rest = true)

include ends

theorem startsWithDigit_of_endsNumber : startsWithDigit rest = false := by
  cases rest with
  | nil => rfl
  | cons c rest =>
    simp only [endsNumber, Bool.and_eq_true, Bool.not_eq_true'] at ends
    exact ends.1.1.1

theorem readFraction_of_endsNumber : readFraction rest = some (none, rest) := by
  cases rest with
  | nil => rfl
  | cons c rest =>
    simp only [endsNumber, Bool.and_eq_true, bne_iff_ne] at ends
    simp [readFraction, ends.1.1.2]

theorem readExponentPart_of_endsNumber : readExponentPart rest = some (none, rest) := by
  cases rest with
  | nil => rfl
  | cons c rest =>
    simp only [endsNumber, Bool.and_eq_true, bne_iff_ne] at ends
    simp [readExponentPart, ends.1.2, ends.2]

end Ends

theorem readNumber_digits (negative : Bool) {digits rest : List Char} (filled : digits ≠ [])
    (all : ∀ c ∈ digits, isDigit c = true) (noZero : digits.head? = some '0' → digits.length = 1)
    (ends : endsNumber rest = true) :
    readNumber ((if negative then ['-'] else []) ++ digits ++ rest) =
      (wholeNumber negative digits).map fun v => (v, rest) := by
  have span := spanDigits_of_append all (startsWithDigit_of_endsNumber ends)
  have wellFormed : ¬(digits = [] ∨ (digits.head? = some '0' ∧ digits.length ≠ 1)) := by
    rintro (empty | ⟨zero, more⟩)
    · exact filled empty
    · exact more (noZero zero)
  cases negative with
  | true =>
    rw [if_pos rfl, List.singleton_append, List.cons_append, readNumber]
    cases number : wholeNumber true digits <;>
      simp [span, wellFormed, readFraction_of_endsNumber ends, readExponentPart_of_endsNumber ends,
        number]
  | false =>
    have noMinus (text : List Char) : digits ++ rest ≠ '-' :: text := by
      obtain ⟨c, digits, rfl⟩ := List.exists_cons_of_ne_nil filled
      intro same
      obtain rfl := List.head_eq_of_cons_eq same
      exact absurd (all '-' (by simp)) (by decide)
    rw [if_neg Bool.false_ne_true, List.nil_append, readNumber.eq_2 _ noMinus]
    cases number : wholeNumber false digits <;>
      simp [span, wellFormed, readFraction_of_endsNumber ends, readExponentPart_of_endsNumber ends,
        number]

theorem wholeNumber_integer (n : Int64) :
    wholeNumber (decide (n.toInt < 0)) (Nat.toDigits 10 n.toInt.natAbs) = some (.integer n) := by
  have noZero : ¬(decide (n.toInt < 0) = true ∧ n.toInt.natAbs = 0) := by
    rw [decide_eq_true_iff]
    omega
  have signed : (if decide (n.toInt < 0) = true then -(n.toInt.natAbs : Int) else n.toInt.natAbs) =
      n.toInt := by
    split <;> rename_i sign <;> rw [decide_eq_true_iff] at sign <;> omega
  rw [wholeNumber, digitsValue_toDigits]
  dsimp only
  rw [if_neg noZero, signed, toInt64?_toInt]

theorem toList_toString (n : Int) :
    (toString n).toList = (if decide (n < 0) then ['-'] else []) ++ Nat.toDigits 10 n.natAbs := by
  simpa [Numeral.minus] using Numeral.toList_repr n

theorem readNumber_integer (n : Int64) {rest : List Char} (ends : endsNumber rest = true) :
    readNumber ((toString n.toInt).toList ++ rest) = some (.integer n, rest) := by
  rw [toList_toString, readNumber_digits _ Nat.toDigits_ne_nil (fun _ => isDigit_of_mem_toDigits)
    length_of_head?_toDigits ends, wholeNumber_integer]
  rfl

theorem toString_starts (n : Int) :
    ∃ c text, (toString n).toList = c :: text ∧ ∀ other, other ≠ '-' → isDigit other = false →
      c ≠ other := by
  obtain ⟨c, digits, front⟩ :=
    List.exists_cons_of_ne_nil (Nat.toDigits_ne_nil (n := n.natAbs) (b := 10))
  rw [toList_toString]
  split
  · exact ⟨'-', _, rfl, fun other noMinus _ => noMinus.symm⟩
  · have digit : isDigit c = true := isDigit_of_mem_toDigits (front ▸ List.mem_cons_self ..)
    refine ⟨c, digits, front, fun other _ noDigit => ?_⟩
    rintro rfl
    rw [digit] at noDigit
    cases noDigit

theorem hexValue_of_hexDigit {c : Char} {n : Nat} (digit : HexDigit c n) : hexValue c = some n := by
  have small : ∀ n < 16, "0123456789abcdef".toList[n]?.map hexValue = some (some n) := by decide
  have capital : ∀ n < 16, "0123456789ABCDEF".toList[n]?.map hexValue = some (some n) := by decide
  rcases digit with found | found
  · have read := small n (List.getElem?_eq_some_iff.1 found).1
    rw [found] at read
    exact Option.some.inj read
  · have read := capital n (List.getElem?_eq_some_iff.1 found).1
    rw [found] at read
    exact Option.some.inj read

theorem hexUnit_of_digits {a b c d : Char} {unit : Nat} (h : HexUnit a b c d unit) :
    hexUnit a b c d = some unit := by
  obtain ⟨i, j, k, l, first, second, third, fourth, rfl⟩ := h
  simp only [hexUnit, hexValue_of_hexDigit first, hexValue_of_hexDigit second,
    hexValue_of_hexDigit third, hexValue_of_hexDigit fourth, Option.bind_eq_bind, Option.bind_some,
    Option.pure_def, Option.some.injEq]
  omega

theorem plainEscape_of_mem {e c : Char} (known : (e, c) ∈ escapes) :
    plainEscape e = some c ∧ e ≠ 'u' := by
  have all : ∀ pair ∈ escapes, plainEscape pair.1 = some pair.2 ∧ pair.1 ≠ 'u' := by decide
  exact all (e, c) known

theorem joinSurrogates_eq {x : Char} {high low : Nat}
    (is : x.toNat = 0x10000 + 0x400 * high + low) :
    joinSurrogates (0xD800 + high) (0xDC00 + low) = x := by
  have code : 0x10000 + (0xD800 + high - 0xD800) * 0x400 + (0xDC00 + low - 0xDC00) = x.toNat := by
    omega
  rw [joinSurrogates, code, Char.ofNat_toNat]

theorem readCharacters_letters {s text rest : List Char} (letters : Letters s text rest) :
    readCharacters text = some (s, rest) := by
  induction letters with
  | close =>
    rw [readCharacters.eq_def]
    rfl
  | plain noQuote noEscape noControl _ ih =>
    rw [readCharacters.eq_def]
    simp [noQuote, noEscape, noControl, ih]
  | escape known _ ih =>
    obtain ⟨plain, noUnit⟩ := plainEscape_of_mem known
    rw [readCharacters.eq_def]
    simp [noUnit, plain, ih]
  | @unit _ _ _ _ x _ _ _ digits _ ih =>
    -- no character is a surrogate
    have valid : x.toNat < 0xD800 ∨ 0xDFFF < x.toNat := x.valid.imp_right And.left
    have high : isHighSurrogate x.toNat = false := by simp [isHighSurrogate]; omega
    have low : isLowSurrogate x.toNat = false := by simp [isLowSurrogate]; omega
    rw [readCharacters.eq_def]
    simp [hexUnit_of_digits digits, high, low, Char.ofNat_toNat, ih]
  | @pair _ _ _ _ _ _ _ _ _ high low _ _ _ first second high_lt low_lt is _ ih =>
    have isHigh : isHighSurrogate (0xD800 + high) = true := by simp [isHighSurrogate]; omega
    have isLow : isLowSurrogate (0xDC00 + low) = true := by simp [isLowSurrogate]; omega
    rw [readCharacters.eq_def]
    simp [hexUnit_of_digits first, hexUnit_of_digits second, isHigh, isLow, joinSurrogates_eq is, ih]

theorem readString_letters {s : String} {text rest : List Char}
    (letters : Letters s.toList text rest) : readString ('"' :: text) = some (s, rest) := by
  simp [readString, expect, readCharacters_letters letters]

theorem hexDigit_spec (n : Nat) : HexDigit (hexDigit n) (n % 16) := by
  have digits : ∀ d < 16, "0123456789abcdef".toList[d]? = some (Nat.digitChar d) := by decide
  exact .inl (digits (n % 16) (Nat.mod_lt n (by decide)))

theorem letters_escapeChar (c : Char) {s text rest : List Char} (more : Letters s text rest) :
    Letters (c :: s) (escapeChar c ++ text) rest := by
  fun_cases escapeChar c with
  | case1 | case2 | case3 | case4 | case5 =>
    subst_vars
    exact .escape (by decide) more
  | case6 _ _ _ _ _ control =>
    refine .unit ⟨_, _, _, _, hexDigit_spec _, hexDigit_spec _, hexDigit_spec _, hexDigit_spec _, ?_⟩
      more
    simp [isControl] at control
    omega
  | case7 noQuote noEscape _ _ _ noControl =>
    refine .plain noQuote noEscape ?_ more
    simp [isControl] at noControl
    omega

theorem letters_written (s rest : List Char) :
    Letters s (s.flatMap escapeChar ++ '"' :: rest) rest := by
  induction s with
  | nil => exact .close
  | cons c s ih =>
    rw [List.flatMap_cons, List.append_assoc]
    exact letters_escapeChar c ih

theorem writeString_append (s : String) (rest : List Char) :
    writeString s ++ rest = '"' :: (s.toList.flatMap escapeChar ++ '"' :: rest) := by
  simp [writeString]

theorem readString_writeString (s : String) (rest : List Char) :
    readString (writeString s ++ rest) = some (s, rest) := by
  rw [writeString_append]
  exact readString_letters (letters_written s.toList rest)

end Json

end RecordPipeline
