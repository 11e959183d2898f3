import RecordPipeline.Proofs.Json.Scalars
import RecordPipeline.Proofs.Number.Plain
import RecordPipeline.Proofs.Value.Equality

/-!
Numbers as they are written in JSON. A double that is not large has a point in its text, so no
integer is spelled like it. A large one is a sign and digits, and may have the text of an integer,
which is then equal to it.
-/

namespace RecordPipeline.Json

open Text Binary64

def SpelledAlike (n : Int64) (x : Float) : Prop :=
  isFinite x = true ∧ isLarge x = true ∧ n.toInt = signed x (shortest x).num

instance (n : Int64) (x : Float) : Decidable (SpelledAlike n x) :=
  inferInstanceAs (Decidable (_ ∧ _ ∧ _))

theorem signed_digits_inj {a b : Bool} {m k : Nat} :
    (if a then ['-'] else []) ++ Nat.toDigits 10 m =
        (if b then ['-'] else []) ++ Nat.toDigits 10 k ↔
      a = b ∧ m = k := by
  have noMinus (n : Nat) (text : List Char) : Nat.toDigits 10 n ≠ '-' :: text := by
    intro same
    have minus : '-' ∈ Nat.toDigits 10 n := by
      rw [same]
      exact List.mem_cons_self ..
    exact absurd (isDigit_of_mem_toDigits minus) (by decide)
  have digits : Nat.toDigits 10 m = Nat.toDigits 10 k ↔ m = k := by
    refine ⟨fun same => ?_, fun same => by rw [same]⟩
    rw [← Number.digitsValue_toDigits m, same, Number.digitsValue_toDigits]
  cases a <;> cases b
  · simpa using digits
  · simpa using noMinus m _
  · simpa using (noMinus k _).symm
  · simpa using digits

def isNumeric (c : Char) : Bool :=
  isDigit c || c == '-' || c == '.'

theorem isNumeric_of_mem_toDigits {n : Nat} {c : Char} (member : c ∈ Nat.toDigits 10 n) :
    isNumeric c = true := by
  rw [isNumeric, isDigit_of_mem_toDigits member]
  rfl

theorem isNumeric_of_mem_sign {x : Float} {c : Char} (member : c ∈ (sign x).toList) :
    isNumeric c = true := by
  rw [sign] at member
  split at member
  · rw [List.mem_singleton.1 member]
    rfl
  · cases member

theorem isNumeric_of_mem_numeral {n : Numeral} (wellFormed : n.WellFormed)
    (plain : n.exponent = none) {c : Char} (member : c ∈ n.text) : isNumeric c = true := by
  have digit {c : Char} (digit : isDigit c = true) : isNumeric c = true := by
    rw [isNumeric, digit]
    rfl
  rw [Numeral.text, Numeral.power, plain, List.append_nil] at member
  rcases List.mem_append.1 member with whole | point
  · exact digit (wellFormed.whole c whole)
  · rw [Numeral.point] at point
    split at point
    · cases point
    · rcases List.mem_cons.1 point with rfl | fraction
      · rfl
      · exact digit (wellFormed.fraction c fraction)

theorem isNumeric_of_mem_integer {n : Int} {c : Char} (member : c ∈ (toString n).toList) :
    isNumeric c = true ∧ c ≠ '.' := by
  rw [toList_toString] at member
  rcases List.mem_append.1 member with minus | digit
  · split at minus
    · rw [List.mem_singleton.1 minus]
      exact ⟨rfl, by decide⟩
    · cases minus
  · refine ⟨isNumeric_of_mem_toDigits digit, ?_⟩
    rintro rfl
    exact absurd (isDigit_of_mem_toDigits digit) (by decide)

theorem isNumeric_of_mem_floatText {x : Float} (finite : isFinite x = true) {c : Char}
    (member : c ∈ (floatText x).toList) : isNumeric c = true := by
  cases large : isLarge x with
  | true =>
    rw [floatText_of_isLarge finite large] at member
    rcases List.mem_append.1 member with sign | digit
    · exact isNumeric_of_mem_sign sign
    · exact isNumeric_of_mem_toDigits digit
  | false =>
    obtain ⟨n, wellFormed, plain, -, text⟩ := floatText_of_not_isLarge finite large
    rw [text] at member
    rcases List.mem_append.1 member with sign | number
    · exact isNumeric_of_mem_sign sign
    · exact isNumeric_of_mem_numeral wellFormed plain number

/-- An integer and a double have one text just where the double is large and spelled like the
integer. -/
theorem integer_text_eq_iff {n : Int64} {x : Float} :
    (toString n.toInt).toList = (floatText x).toList ↔ SpelledAlike n x := by
  have whole (c : Char) (member : c ∈ (toString n.toInt).toList) := isNumeric_of_mem_integer member
  cases finite : isFinite x with
  | false =>
    refine iff_of_false (fun same => ?_) fun alike => by simp [SpelledAlike, finite] at alike
    rw [same, floatText, finite] at whole
    exact absurd (whole 'n' (by simp)).1 (by decide)
  | true =>
    cases large : isLarge x with
    | false =>
      refine iff_of_false (fun same => ?_) fun alike => by simp [SpelledAlike, large] at alike
      obtain ⟨number, -, plain, point, text⟩ := floatText_of_not_isLarge finite large
      refine (whole '.' ?_).2 rfl
      have fraction : number.fraction ≠ [] := by simpa [Numeral.isFloat, plain] using point
      rw [same, text, Numeral.text, Numeral.point, if_neg fraction]
      simp
    | true =>
      have pos : 0 < (shortest x).num :=
        Nat.mul_pos (digits_shortest_pos (magnitude_pos_of_isLarge large)) (tenTo_pos _)
      have sign : (sign x).toList = if isNegative x then ['-'] else [] := by
        rw [Binary64.sign]
        split <;> rfl
      rw [floatText_of_isLarge finite large, toList_toString, sign, signed_digits_inj, SpelledAlike,
        finite, large, signed]
      generalize (shortest x).num = size at pos ⊢
      cases isNegative x <;> simp <;> omega

theorem SpelledAlike.same {n : Int64} {x : Float} (alike : SpelledAlike n x) :
    Binary64.same (ofInt n.toInt) x = true := by
  obtain ⟨finite, large, digits⟩ := alike
  have pos := magnitude_pos_of_isLarge large
  have finite : magnitude x < infinityBits := of_decide_eq_true finite
  have one : (shortest x).den = 1 := by
    have whole := exponent_nonneg_of_isLarge large
    rw [Digits.den, Int.toNat_of_nonpos (by omega), tenTo_zero]
  have holds := shortest_holds (x := x) rfl pos
  rw [one] at holds
  have read := nearestMagnitude_of_holds finite Nat.one_pos holds
  have number : isNaN x = false := decide_eq_false (by omega)
  have filled : 0 < (shortest x).num := Nat.mul_pos (digits_shortest_pos pos) (tenTo_pos _)
  have size : (signed x (shortest x).num).natAbs = (shortest x).num := by
    rw [signed]
    split <;> omega
  have sign : signed x (shortest x).num < 0 ↔ isNegative x = true := by
    rw [signed]
    split
    · exact iff_of_true (by omega) ‹_›
    · exact iff_of_false (by omega) ‹_›
  rw [same_iff_steps]
  refine ⟨isNaN_ofInt _, number, ?_⟩
  rw [steps_ofInt, steps, digits, size, read]
  simp only [sign]

end RecordPipeline.Json
