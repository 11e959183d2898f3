import RecordPipeline.Number.Reading
import RecordPipeline.Number.Shortest
import RecordPipeline.Proofs.Lexing

/-!
Texts of numbers. A numeral is made of digits, a fraction and an exponent; its text is one token, and
reading it gives the decimal of its digits, the fraction counted off the exponent.
-/

namespace RecordPipeline

open Text

theorem isDigit_of_mem_toDigits {n : Nat} {c : Char} (h : c ∈ Nat.toDigits 10 n) :
    isDigit c = true := by
  have digit := Char.isDigit_iff_toNat.1 (Nat.isDigit_of_mem_toDigits (by decide) (by decide) h)
  simpa [isDigit, Char.le_def, UInt32.le_iff_toNat_le] using digit

theorem startsWithDigit_append {digits : List Char} (filled : digits ≠ [])
    (all : ∀ c ∈ digits, isDigit c = true) (rest : List Char) :
    startsWithDigit (digits ++ rest) = true := by
  cases digits with
  | nil => exact absurd rfl filled
  | cons c digits => exact all c (by simp)

theorem startsWithDigit_toDigits (n : Nat) : startsWithDigit (Nat.toDigits 10 n) = true := by
  have starts := startsWithDigit_append (Nat.toDigits_ne_nil (n := n))
    (fun _ => isDigit_of_mem_toDigits) []
  rwa [List.append_nil] at starts

theorem digits_toDigits (n : Nat) :
    Nat.toDigits 10 n ≠ [] ∧ (Nat.toDigits 10 n).all isDigit = true :=
  ⟨Nat.toDigits_ne_nil, List.all_eq_true.2 fun _ => isDigit_of_mem_toDigits⟩

namespace Number

theorem digitsValue_toDigits (n : Nat) : digitsValue (Nat.toDigits 10 n) = n :=
  Nat.ofDigitChars_ten_toDigits

theorem head?_toDigits {n : Nat} (pos : 0 < n) : (Nat.toDigits 10 n).head? ≠ some '0' := by
  induction n using Nat.strongRecOn with
  | ind n ih =>
    rw [Nat.toDigits_eq_if (by decide)]
    split
    · rename_i small
      intro zero
      have code := congrArg Char.toNat (Option.some.inj zero)
      rw [Nat.toNat_digitChar_of_lt_ten small] at code
      have : '0'.toNat = 48 := rfl
      omega
    · rename_i large
      obtain ⟨c, digits, front⟩ :=
        List.exists_cons_of_ne_nil (Nat.toDigits_ne_nil (n := n / 10) (b := 10))
      have ahead := ih (n / 10) (by omega) (by omega)
      rw [front] at ahead ⊢
      exact ahead

theorem length_of_head?_toDigits {n : Nat} (zero : (Nat.toDigits 10 n).head? = some '0') :
    (Nat.toDigits 10 n).length = 1 := by
  rcases Nat.eq_zero_or_pos n with rfl | pos
  · rfl
  · exact absurd zero (head?_toDigits pos)

theorem digitsValue_zeros_append (count : Nat) (digits : List Char) :
    digitsValue (List.replicate count '0' ++ digits) = digitsValue digits := by
  induction count with
  | zero => rfl
  | succ count ih => exact ih

theorem spanDigits_of_append {digits rest : List Char} (all : ∀ c ∈ digits, isDigit c = true)
    (ends : startsWithDigit rest = false) : spanDigits (digits ++ rest) = (digits, rest) := by
  have stop : rest.takeWhile isDigit = [] ∧ rest.dropWhile isDigit = rest := by
    cases rest with
    | nil => exact ⟨rfl, rfl⟩
    | cons c rest =>
      have noDigit : ¬isDigit c = true := ne_true_of_eq_false ends
      exact ⟨List.takeWhile_cons_of_neg noDigit, List.dropWhile_cons_of_neg noDigit⟩
  rw [spanDigits, List.takeWhile_append_of_pos all, List.dropWhile_append_of_pos all, stop.1, stop.2,
    List.append_nil]

end Number

theorem spanNumber_digits_append (isFloat : Bool) {digits : List Char}
    (all : ∀ c ∈ digits, isDigit c = true) (rest : List Char) :
    spanNumber isFloat (digits ++ rest) =
      { spanNumber isFloat rest with text := digits ++ (spanNumber isFloat rest).text } := by
  induction digits with
  | nil => rfl
  | cons c digits ih =>
    rw [List.cons_append, spanNumber_cons, if_pos (all c (by simp)),
      ih fun d member => all d (List.mem_cons_of_mem c member)]
    rfl

/-- Digits, the digits behind the point and the power of ten, of which the last two can be missing. -/
structure Numeral where
  whole : List Char
  fraction : List Char
  exponent : Option Int

namespace Numeral

def point (n : Numeral) : List Char :=
  if n.fraction = [] then [] else '.' :: n.fraction

def power (n : Numeral) : List Char :=
  match n.exponent with
  | none => []
  | some exponent => 'e' :: exponent.repr.toList

def text (n : Numeral) : List Char :=
  n.whole ++ (n.point ++ n.power)

def isFloat (n : Numeral) : Bool :=
  !n.fraction.isEmpty || n.exponent.isSome

structure WellFormed (n : Numeral) : Prop where
  filled : n.whole ≠ []
  whole : ∀ c ∈ n.whole, isDigit c = true
  fraction : ∀ c ∈ n.fraction, isDigit c = true

def minus (exponent : Int) : List Char :=
  if exponent < 0 then ['-'] else []

theorem toList_repr (exponent : Int) :
    exponent.repr.toList = minus exponent ++ Nat.toDigits 10 exponent.natAbs := by
  cases exponent with
  | ofNat size => exact Nat.toList_repr
  | negSucc size =>
    have spelled : (Int.negSucc size).repr.toList = '-' :: (size + 1).repr.toList :=
      String.toList_append
    rw [spelled, Nat.toList_repr, minus, if_pos (Int.negSucc_lt_zero size)]
    rfl

variable {n : Numeral}

theorem spanNumber_power (n : Numeral) (isFloat : Bool) :
    spanNumber isFloat n.power = ⟨n.power, [], isFloat || n.exponent.isSome⟩ := by
  rw [power]
  cases n.exponent with
  | none => simp [spanNumber]
  | some exponent =>
    have starts := startsWithDigit_toDigits exponent.natAbs
    have digits := spanNumber_digits_append true
      (fun c => isDigit_of_mem_toDigits (n := exponent.natAbs) (c := c)) []
    rw [List.append_nil] at digits
    dsimp only
    rw [toList_repr, minus, spanNumber_cons, if_neg (by decide), if_neg (by simp),
      if_pos (by decide)]
    split
    · have noDigit (cs : List Char) : ¬startsWithDigit ('-' :: cs) = true := Bool.false_ne_true
      rw [List.singleton_append, if_neg (noDigit _)]
      dsimp only
      rw [starts, if_pos (by decide), digits]
      simp [NumberSpan.push, spanNumber]
    · rw [List.nil_append, if_pos starts, digits]
      simp [NumberSpan.push, spanNumber]

theorem spanNumber_text (h : n.WellFormed) : spanNumber false n.text = ⟨n.text, [], n.isFloat⟩ := by
  rw [text, spanNumber_digits_append false h.whole, isFloat, point]
  by_cases whole : n.fraction = []
  · rw [if_pos whole, whole, List.nil_append, spanNumber_power]
    rfl
  · have starts := startsWithDigit_append whole h.fraction n.power
    rw [if_neg whole, List.cons_append, spanNumber_cons, if_neg (by decide),
      if_pos (by simp [starts]), spanNumber_digits_append true h.fraction, spanNumber_power]
    simp [NumberSpan.push, whole]

open Number

theorem takeSign_of_digit {cs : List Char} (starts : startsWithDigit cs = true) :
    takeSign cs = (false, cs) := by
  cases cs with
  | nil => rfl
  | cons c cs =>
    have digit : isDigit c = true := starts
    have noMinus : c ≠ '-' := by
      rintro rfl
      cases digit
    have noPlus : c ≠ '+' := by
      rintro rfl
      cases digit
    simp [takeSign, noMinus, noPlus]

theorem readExponent_repr (exponent : Int) :
    readExponent exponent.repr.toList = some exponent := by
  have digits := digits_toDigits exponent.natAbs
  rw [toList_repr, minus, readExponent]
  by_cases negative : exponent < 0
  · rw [if_pos negative, List.singleton_append, takeSign]
    dsimp only
    rw [if_pos digits, digitsValue_toDigits, if_pos rfl]
    exact congrArg some (by omega)
  · rw [if_neg negative, List.nil_append, takeSign_of_digit (startsWithDigit_toDigits _)]
    dsimp only
    rw [if_pos digits, digitsValue_toDigits, if_neg Bool.false_ne_true]
    exact congrArg some (by omega)

theorem readUnsigned_text (h : n.WellFormed) :
    readUnsigned false n.text =
      some (ofDecimal false (digitsValue (n.whole ++ n.fraction))
        (n.exponent.getD 0 - n.fraction.length)) := by
  have powerEnds : startsWithDigit n.power = false := by
    rw [power]
    split <;> rfl
  have restEnds : startsWithDigit (n.point ++ n.power) = false := by
    rw [point]
    split
    · exact powerEnds
    · rfl
  rw [text, readUnsigned, spanDigits_of_append h.whole restEnds, point]
  by_cases whole : n.fraction = []
  · rw [if_pos whole, whole, List.nil_append, power]
    cases n.exponent with
    | none => simp [h.filled]
    | some exponent => simp [h.filled, readExponent_repr]
  · have span := spanDigits_of_append h.fraction powerEnds
    rw [power] at span
    rw [if_neg whole, power]
    cases kind : n.exponent with
    | none =>
      simp only [kind, List.append_nil] at span
      simp [h.filled, span]
    | some exponent =>
      rw [kind] at span
      simp [h.filled, span, readExponent_repr]

theorem startsWithDigit_lowered {cs : List Char} (starts : startsWithDigit cs = true) :
    startsWithDigit (cs.map lowerAscii) = true := by
  cases cs with
  | nil => cases starts
  | cons c cs =>
    have digit : isDigit c = true := starts
    have same : lowerAscii c = c := by
      refine if_neg fun upper => ?_
      simp [isDigit, Char.le_def, UInt32.le_iff_toNat_le] at digit upper
      omega
    rw [List.map_cons, same]
    exact digit

theorem readFloat_of_digit {cs : List Char} (starts : startsWithDigit cs = true) :
    readFloat cs = readUnsigned false cs := by
  have lowered := startsWithDigit_lowered starts
  have other (word : String) (noDigit : startsWithDigit word.toList = false) :
      String.ofList (cs.map lowerAscii) ≠ word := by
    rintro rfl
    rw [String.toList_ofList, lowered] at noDigit
    cases noDigit
  rw [readFloat, takeSign_of_digit starts]
  dsimp only
  rw [if_neg, if_neg (other "nan" rfl)]
  exact fun either => either.elim (other "inf" rfl) (other "infinity" rfl)

theorem readFloat_text (h : n.WellFormed) : readFloat n.text = readUnsigned false n.text :=
  readFloat_of_digit (startsWithDigit_append h.filled h.whole (n.point ++ n.power))

end Numeral

end RecordPipeline
