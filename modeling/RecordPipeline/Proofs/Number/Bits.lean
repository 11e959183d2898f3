import Mathlib
import RecordPipeline.Number.Binary64

/-!
The bits of a double. A bit pattern that is no NaN is kept when a double is made of it, so the
magnitude that a double was made from can be read back from it.
-/

namespace RecordPipeline.Binary64

open Float.Model Float.Model.UnpackedFloat

theorem packComponents_unpack {spec : Format} (b : BitVec spec.numBits) :
    packComponents spec (Sign.ofBitVec (unpackSign b)) (unpackExponent b) (unpackMantissa b) =
      b := by
  have sign (v : BitVec 1) : (Sign.ofBitVec v).toBitVec = v := by
    revert v
    decide
  ext i hi
  rw [packComponents, sign]
  simp only [unpackSign, unpackExponent, unpackMantissa, Nat.sub_zero, BitVec.getElem_append,
    BitVec.getElem_cast, BitVec.getElem_extract, Nat.zero_add, dite_eq_ite]
  split
  · exact BitVec.getLsbD_eq_getElem hi
  · rename_i above
    split
    · rw [Nat.add_sub_cancel' (Nat.not_lt.1 above)]
      exact BitVec.getLsbD_eq_getElem hi
    · rename_i last
      rw [Nat.add_assoc, Nat.add_sub_cancel' (Nat.not_lt.1 last),
        Nat.add_sub_cancel' (Nat.not_lt.1 above)]
      exact BitVec.getLsbD_eq_getElem hi

theorem toNat_one_append (v : BitVec 52) : (1#1 ++ v).toNat = 2 ^ 52 + v.toNat := by
  rw [BitVec.toNat_append]
  exact (Nat.shiftLeft_add_eq_or_of_lt v.isLt 1).symm

/-- Unpacking and packing again loses only what distinguishes one NaN from another. -/
theorem pack_unpack (b : BitVec Format.binary64.numBits)
    (number : unpackExponent b = -1#_ → unpackMantissa b = 0#_) :
    UnpackedFloat.pack .binary64 (UnpackedFloat.unpack .binary64 b) = b := by
  have parts := packComponents_unpack b
  have small : (unpackMantissa b).toNat < 2 ^ 52 := (unpackMantissa b).isLt
  rw [UnpackedFloat.unpack]
  by_cases full : unpackExponent b = -1#_
  · rw [number full, full] at parts
    rw [if_pos full, if_pos (number full), UnpackedFloat.pack, packedInfinity]
    exact parts
  rw [if_neg full]
  by_cases empty : unpackExponent b = 0#_
  · rw [empty] at parts
    rw [if_pos empty]
    by_cases zero : unpackMantissa b = 0#_
    · rw [zero] at parts
      rw [dif_pos zero, UnpackedFloat.pack, packedZero]
      exact parts
    · have short : (unpackMantissa b).toNat.log2 < 52 :=
        (Nat.log2_lt (by simpa [← BitVec.toNat_inj] using zero)).2 small
      rw [dif_neg zero, UnpackedFloat.pack, if_neg, if_neg, BitVec.ofNat_toNat, BitVec.setWidth_eq]
      · exact parts
      · simp only [Format.mantissaBits]
        omega
      · simp [empty, Format.exponentBias]
  · have log : (1#1 ++ unpackMantissa b).toNat.log2 = 52 := by
      rw [toNat_one_append]
      exact (Nat.log2_eq_iff (by omega)).2 ⟨by omega, by omega⟩
    have below : (unpackExponent b).toNat < 2047 := by
      have bound : (unpackExponent b).toNat < 2048 := (unpackExponent b).isLt
      have other : (unpackExponent b).toNat ≠ 2047 := fun same =>
        full (BitVec.eq_of_toNat_eq (by rw [same]; rfl))
      omega
    have biased (offset : Int) :
        (((unpackExponent b).toNat : Int) - (offset + (52 : Nat)) + offset + (52 : Nat)).toNat =
          (unpackExponent b).toNat := by omega
    have cut : BitVec.ofNat 52 (2 ^ 52 + (unpackMantissa b).toNat) = unpackMantissa b := by
      refine BitVec.eq_of_toNat_eq ?_
      rw [BitVec.toNat_ofNat, Nat.add_mod_left, Nat.mod_eq_of_lt small]
    rw [if_neg empty, UnpackedFloat.pack, biased, if_neg, if_pos, BitVec.ofNat_toNat,
      BitVec.setWidth_eq, toNat_one_append]
    · exact (congrArg (packComponents .binary64 _ _) cut).trans parts
    · rw [log]
      rfl
    · exact Nat.not_le.2 (Nat.succ_lt_succ below)

theorem toBits_ofBits {n : Nat} (size : n < UInt64.size) (h : n % signBit ≤ infinityBits) :
    (Float.ofBits (UInt64.ofNat n)).toBits = UInt64.ofNat n := by
  rw [UInt64.size] at size
  rw [signBit, infinityBits, binade] at h
  have value : (BitVec.ofNat 64 n).toNat = n := Nat.mod_eq_of_lt size
  have number : @unpackExponent .binary64 (BitVec.ofNat 64 n) = -1#_ →
      @unpackMantissa .binary64 (BitVec.ofNat 64 n) = 0#_ := by
    intro full
    have exponent : n >>> 52 % 2048 = 2047 := by
      have field := congrArg BitVec.toNat full
      simp only [unpackExponent, BitVec.toNat_cast, BitVec.extractLsb_toNat] at field
      rw [← value]
      exact field
    rw [Nat.shiftRight_eq_div_pow] at exponent
    have fraction : (BitVec.ofNat 64 n).toNat % 2 ^ 52 = 0 := by
      rw [value]
      omega
    refine BitVec.eq_of_toNat_eq ?_
    simp only [unpackMantissa, BitVec.toNat_cast, BitVec.extractLsb_toNat]
    exact fraction
  exact congrArg UInt64.ofBitVec (pack_unpack (BitVec.ofNat 64 n) number)

variable {negative : Bool} {bits : Nat}

theorem below_signBit (h : bits ≤ infinityBits) : bits < signBit := by
  rw [infinityBits, binade] at h
  rw [signBit]
  omega

theorem withSign_mod (h : bits ≤ infinityBits) :
    (if negative then signBit + bits else bits) % signBit = bits := by
  split
  · rw [Nat.add_mod_left, Nat.mod_eq_of_lt (below_signBit h)]
  · exact Nat.mod_eq_of_lt (below_signBit h)

theorem toNat_ofMagnitude (h : bits ≤ infinityBits) :
    (ofMagnitude negative bits).toBits.toNat = if negative then signBit + bits else bits := by
  have below := below_signBit h
  have size : (if negative then signBit + bits else bits) < UInt64.size := by
    rw [signBit] at below ⊢
    rw [UInt64.size]
    split <;> omega
  rw [ofMagnitude, toBits_ofBits size (by rwa [withSign_mod h])]
  exact UInt64.toNat_ofNat_of_lt' size

@[simp] theorem magnitude_ofMagnitude (h : bits ≤ infinityBits) :
    magnitude (ofMagnitude negative bits) = bits := by
  rw [magnitude, toNat_ofMagnitude h, withSign_mod h]

@[simp] theorem isNegative_ofMagnitude (h : bits ≤ infinityBits) :
    isNegative (ofMagnitude negative bits) = negative := by
  have below := below_signBit h
  rw [isNegative, toNat_ofMagnitude h]
  cases negative with
  | false => exact decide_eq_false (Nat.not_le.2 below)
  | true => exact decide_eq_true (Nat.le_add_right ..)

end RecordPipeline.Binary64
