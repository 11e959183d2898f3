import RecordPipeline.Proofs.Number.Rounding

/-!
Sign, exponent and mantissa of a double. Operations on doubles work on these parts; magnitudes and
signs of bits tell the same, so a fact about parts becomes one about steps.
-/

namespace RecordPipeline.Binary64

open Float.Model Float.Model.UnpackedFloat

def parts (x : Float) : UnpackedFloat :=
  x.toModel.unpack

def ofParts (u : UnpackedFloat) : Float :=
  ⟨Float.Model.pack u⟩

def signOf (negative : Bool) : Sign :=
  if negative then .negative else .positive

theorem add_eq_ofParts (x y : Float) :
    x + y = ofParts (UnpackedFloat.add .binary64 (parts x) (parts y)) := rfl

theorem mul_eq_ofParts (x y : Float) :
    x * y = ofParts (UnpackedFloat.mul .binary64 (parts x) (parts y)) := rfl

theorem div_eq_ofParts (x y : Float) :
    x / y = ofParts (UnpackedFloat.div .binary64 (parts x) (parts y)) := rfl

theorem neg_eq_ofParts (x : Float) : -x = ofParts (UnpackedFloat.neg (parts x)) := rfl

theorem abs_eq_ofParts (x : Float) : x.abs = ofParts (UnpackedFloat.abs (parts x)) := rfl

theorem toNat_packComponents (negative : Bool) (e : BitVec 11) (m : BitVec 52) :
    BitVec.toNat (packComponents .binary64 (signOf negative) e m) =
      (if negative then signBit else 0) + (e.toNat * binade + m.toNat) := by
  have small := m.isLt
  have short := e.isLt
  rw [packComponents]
  simp only [BitVec.toNat_append]
  rw [← Nat.shiftLeft_add_eq_or_of_lt short, ← Nat.shiftLeft_add_eq_or_of_lt small]
  cases negative
  · simp [signOf, Sign.toBitVec, binade, Nat.shiftLeft_eq]
  · simp [signOf, Sign.toBitVec, binade, signBit, Nat.shiftLeft_eq]
    omega

theorem of_components {x : Float} {negative : Bool} {e : BitVec 11} {m : BitVec 52}
    (h : x.toBits.toBitVec = packComponents .binary64 (signOf negative) e m) :
    magnitude x = e.toNat * binade + m.toNat ∧ isNegative x = negative := by
  have bits : x.toBits.toNat =
      (if negative then signBit else 0) + (e.toNat * binade + m.toNat) := by
    rw [← toNat_packComponents, ← h]
    rfl
  have below : e.toNat * binade + m.toNat < signBit := by
    have small := m.isLt
    have short := e.isLt
    rw [binade, signBit]
    omega
  rw [magnitude, isNegative, bits]
  cases negative
  · rw [if_neg Bool.false_ne_true, Nat.zero_add]
    exact ⟨Nat.mod_eq_of_lt below, decide_eq_false (Nat.not_le.2 below)⟩
  · rw [if_pos rfl]
    refine ⟨?_, decide_eq_true (Nat.le_add_right ..)⟩
    rw [Nat.add_mod_left, Nat.mod_eq_of_lt below]

section Unpacking

variable {x : Float}

theorem fields_eq (x : Float) :
    (@unpackExponent .binary64 x.toBits.toBitVec).toNat = magnitude x / binade ∧
      (@unpackMantissa .binary64 x.toBits.toBitVec).toNat = magnitude x % binade ∧
      Sign.ofBitVec (@unpackSign .binary64 x.toBits.toBitVec) = signOf (isNegative x) := by
  have whole := @packComponents_unpack .binary64 x.toBits.toBitVec
  have small : (@unpackMantissa .binary64 x.toBits.toBitVec).toNat < binade :=
    (@unpackMantissa .binary64 x.toBits.toBitVec).isLt
  obtain ⟨negative, sign⟩ : ∃ negative,
      Sign.ofBitVec (@unpackSign .binary64 x.toBits.toBitVec) = signOf negative := by
    cases Sign.ofBitVec (@unpackSign .binary64 x.toBits.toBitVec) with
    | negative => exact ⟨true, rfl⟩
    | positive => exact ⟨false, rfl⟩
  rw [sign] at whole
  obtain ⟨magnitude, isNegative⟩ := of_components whole.symm
  refine ⟨?_, ?_, by rw [sign, isNegative]⟩
  · rw [magnitude, Nat.add_comm, Nat.add_mul_div_right _ _ (by decide), Nat.div_eq_of_lt small,
      Nat.zero_add]
  · rw [magnitude, Nat.add_comm, Nat.add_mul_mod_self_right, Nat.mod_eq_of_lt small]

theorem parts_zero (zero : magnitude x = 0) : parts x = .zero (signOf (isNegative x)) := by
  obtain ⟨exponent, mantissa, sign⟩ := fields_eq x
  rw [zero] at exponent mantissa
  have noExponent : @unpackExponent .binary64 x.toBits.toBitVec = 0#_ :=
    BitVec.eq_of_toNat_eq exponent
  have noMantissa : @unpackMantissa .binary64 x.toBits.toBitVec = 0#_ :=
    BitVec.eq_of_toNat_eq mantissa
  change UnpackedFloat.unpack .binary64 x.toBits.toBitVec = _
  rw [UnpackedFloat.unpack, if_neg (by rw [noExponent]; decide), if_pos noExponent,
    dif_pos noMantissa, sign]

theorem parts_infinity (infinite : magnitude x = infinityBits) :
    parts x = .infinity (signOf (isNegative x)) := by
  obtain ⟨exponent, mantissa, sign⟩ := fields_eq x
  rw [infinite] at exponent mantissa
  have fullExponent : @unpackExponent .binary64 x.toBits.toBitVec = -1#_ :=
    BitVec.eq_of_toNat_eq exponent
  have noMantissa : @unpackMantissa .binary64 x.toBits.toBitVec = 0#_ :=
    BitVec.eq_of_toNat_eq mantissa
  change UnpackedFloat.unpack .binary64 x.toBits.toBitVec = _
  rw [UnpackedFloat.unpack, if_pos fullExponent, if_pos noMantissa, sign]

theorem finite_congr {s : Sign} {m k : Nat} {e f : Int} {pos : 0 < m} (mantissas : m = k)
    (exponents : e = f) :
    UnpackedFloat.finite s m e pos = .finite s k f (mantissas ▸ pos) := by
  subst mantissas exponents
  rfl

theorem parts_finite (pos : 0 < magnitude x) (finite : magnitude x < infinityBits) :
    parts x = .finite (signOf (isNegative x)) (gapsOf (magnitude x))
      ((magnitude x / binade - 1 : Nat) - 1074) (gapsOf_pos pos) := by
  obtain ⟨exponent, mantissa, sign⟩ := fields_eq x
  have whole := Nat.div_add_mod (magnitude x) binade
  have notFull : @unpackExponent .binary64 x.toBits.toBitVec ≠ -1#_ := by
    intro full
    rw [full] at exponent
    have last : (2047 : Nat) = magnitude x / binade := exponent
    rw [infinityBits] at finite
    have := (Nat.div_lt_iff_lt_mul (by decide : 0 < binade)).2 finite
    omega
  change UnpackedFloat.unpack .binary64 x.toBits.toBitVec = _
  rw [UnpackedFloat.unpack, if_neg notFull]
  by_cases empty : @unpackExponent .binary64 x.toBits.toBitVec = 0#_
  · have first : magnitude x / binade = 0 := by
      rw [← exponent, empty]
      rfl
    have filled : @unpackMantissa .binary64 x.toBits.toBitVec ≠ 0#_ := by
      intro none
      rw [none] at mantissa
      have : (0 : Nat) = magnitude x % binade := mantissa
      rw [first, ← this] at whole
      omega
    rw [if_pos empty, dif_neg filled, sign]
    refine finite_congr ?_ ?_
    · rw [mantissa, gapsOf, if_pos first]
      rw [first] at whole
      omega
    · rw [exponent, first]
      rfl
  · have later : magnitude x / binade ≠ 0 := by
      intro first
      rw [first] at exponent
      exact empty (BitVec.eq_of_toNat_eq exponent)
    rw [if_neg empty, sign]
    refine finite_congr ?_ ?_
    · rw [gapsOf, if_neg later, ← mantissa]
      exact toNat_one_append _
    · rw [exponent]
      simp only [Format.exponentBias]
      omega

end Unpacking

section Packing

variable {negative : Bool}

theorem eq_of_toBits {x y : Float} (h : x.toBits.toNat = y.toBits.toNat) : x = y := by
  obtain ⟨⟨bits, _⟩⟩ := x
  obtain ⟨⟨others, _⟩⟩ := y
  have same : bits = others := UInt64.toNat_inj.1 h
  subst same
  rfl

theorem ofParts_of_pack {u : UnpackedFloat} {e : BitVec 11} {m : BitVec 52}
    (h : UnpackedFloat.pack .binary64 u = packComponents .binary64 (signOf negative) e m)
    (bounded : e.toNat * binade + m.toNat ≤ infinityBits) :
    ofParts u = ofMagnitude negative (e.toNat * binade + m.toNat) := by
  refine eq_of_toBits ?_
  have bits : (ofParts u).toBits.toNat =
      BitVec.toNat (packComponents .binary64 (signOf negative) e m) := by
    rw [← h]
    rfl
  rw [bits, toNat_packComponents, toNat_ofMagnitude bounded]
  cases negative
  · exact Nat.zero_add _
  · rfl

theorem ofParts_zero : ofParts (.zero (signOf negative)) = ofMagnitude negative 0 := by
  have packed : UnpackedFloat.pack .binary64 (.zero (signOf negative)) =
    packComponents .binary64 (signOf negative) 0#11 0#52 := rfl
  have read := ofParts_of_pack packed (by decide)
  simpa using read

theorem ofParts_of_pack_infinity {u : UnpackedFloat}
    (h : UnpackedFloat.pack .binary64 u = packedInfinity .binary64 (signOf negative)) :
    ofParts u = ofMagnitude negative infinityBits := by
  have read := ofParts_of_pack (e := -1#11) (m := 0#52) h (by decide)
  have last : (-1#11).toNat * binade + (0#52).toNat = infinityBits := by decide
  rwa [last] at read

theorem ofParts_infinity :
    ofParts (.infinity (signOf negative)) = ofMagnitude negative infinityBits :=
  ofParts_of_pack_infinity rfl

theorem ofParts_finite {m k : Nat} (pos : 0 < m) (least : k = 0 ∨ binade ≤ m)
    (most : m < 2 * binade) :
    ofParts (.finite (signOf negative) m (k - 1074) pos) =
      ofMagnitude negative (min infinityBits (k * binade + m)) := by
  have biased : ((k : Int) - 1074 + (Format.exponentBias .binary64 : Nat) + (52 : Nat)).toNat =
      k + 1 := by
    simp only [Format.exponentBias]
    omega
  rw [binade] at least most
  by_cases large : 2 ^ 11 ≤ k + 1 + 1
  · have beyond : infinityBits ≤ k * binade + m := by
      rw [infinityBits, binade]
      omega
    rw [Nat.min_eq_left beyond]
    refine ofParts_of_pack_infinity ?_
    rw [UnpackedFloat.pack, biased, if_pos large]
  have under : k * binade + m ≤ infinityBits := by
    rw [infinityBits, binade]
    omega
  rw [Nat.min_eq_right under]
  by_cases normal : binade ≤ m
  · have packed : UnpackedFloat.pack .binary64 (.finite (signOf negative) m (k - 1074) pos) =
        packComponents .binary64 (signOf negative) (BitVec.ofNat 11 (k + 1)) (BitVec.ofNat 52 m) := by
      have digits : m.log2 + 1 = Format.mantissaBits .binary64 := by
        rw [(Nat.log2_eq_iff (k := 52) (by omega)).2 ⟨normal, most⟩]
        rfl
      rw [UnpackedFloat.pack, biased, if_neg large, if_pos digits]
    have fields : (BitVec.ofNat 11 (k + 1)).toNat * binade + (BitVec.ofNat 52 m).toNat =
        k * binade + m := by
      rw [BitVec.toNat_ofNat, BitVec.toNat_ofNat]
      rw [binade] at normal ⊢
      omega
    rw [ofParts_of_pack packed (by rwa [fields]), fields]
  · obtain rfl := least.resolve_right normal
    have packed : UnpackedFloat.pack .binary64 (.finite (signOf negative) m ((0 : Nat) - 1074) pos) =
        packComponents .binary64 (signOf negative) 0#11 (BitVec.ofNat 52 m) := by
      have digits : m.log2 + 1 ≠ Format.mantissaBits .binary64 := by
        have short := (Nat.log2_lt (by omega)).2 (show m < 2 ^ 52 from Nat.not_le.1 normal)
        simp only [Format.mantissaBits]
        omega
      rw [UnpackedFloat.pack, biased, if_neg large, if_neg digits]
    have fields : (0#11).toNat * binade + (BitVec.ofNat 52 m).toNat = 0 * binade + m := by
      have short : m < 2 ^ 52 := Nat.not_le.1 normal
      rw [BitVec.toNat_ofNat m, Nat.mod_eq_of_lt short]
      rfl
    rw [ofParts_of_pack packed (by rwa [fields]), fields]

theorem exists_ofParts_finite {m : Nat} {e : Int} (pos : 0 < m) :
    ∃ bits ≤ infinityBits, ofParts (.finite (signOf negative) m e pos) = ofMagnitude negative bits := by
  generalize biased : (e + (Format.exponentBias .binary64 : Nat) + (52 : Nat)).toNat = k
  by_cases large : 2 ^ 11 ≤ k + 1
  · refine ⟨infinityBits, Nat.le_refl _, ofParts_of_pack_infinity ?_⟩
    rw [UnpackedFloat.pack, biased, if_pos large]
  by_cases normal : m.log2 + 1 = Format.mantissaBits .binary64
  · have packed : UnpackedFloat.pack .binary64 (.finite (signOf negative) m e pos) =
        packComponents .binary64 (signOf negative) (BitVec.ofNat 11 k) (BitVec.ofNat 52 m) := by
      rw [UnpackedFloat.pack, biased, if_neg large, if_pos normal]
    have bounded : (BitVec.ofNat 11 k).toNat * binade + (BitVec.ofNat 52 m).toNat ≤
        infinityBits := by
      rw [BitVec.toNat_ofNat, BitVec.toNat_ofNat, binade, infinityBits, binade]
      omega
    exact ⟨_, bounded, ofParts_of_pack packed bounded⟩
  · have packed : UnpackedFloat.pack .binary64 (.finite (signOf negative) m e pos) =
        packComponents .binary64 (signOf negative) 0#11 (BitVec.ofNat 52 m) := by
      rw [UnpackedFloat.pack, biased, if_neg large, if_neg normal]
    have bounded : (0#11).toNat * binade + (BitVec.ofNat 52 m).toNat ≤ infinityBits := by
      rw [BitVec.toNat_ofNat m, BitVec.toNat_zero, Nat.zero_mul, Nat.zero_add, infinityBits, binade]
      omega
    exact ⟨_, bounded, ofParts_of_pack packed bounded⟩

end Packing

end RecordPipeline.Binary64
