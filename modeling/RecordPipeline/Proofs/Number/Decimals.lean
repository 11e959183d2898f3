import RecordPipeline.Proofs.Number.Signs

/-!
Signs of decimals. A decimal made from a double has its sign unless it is zero, a remainder has that
of the dividend, and turning a decimal into a double keeps the sign.
-/

namespace RecordPipeline.Decimal

open Binary64 (Signed Scales isNegative steps)

def sign (d : Decimal) : Int :=
  if d.mantissa = 0 then 0 else if d.negative then -1 else 1

theorem sign_of_make? {negative bit : Bool} {mantissa scale : Nat} {d : Decimal}
    (h : make? negative mantissa scale = some d) (kept : mantissa ≠ 0 → negative = bit) :
    d.sign = 0 ∨ d.sign = if bit then -1 else 1 := by
  rw [make?] at h
  split at h
  · cases h
    rw [sign]
    split
    · exact .inl rfl
    · rename_i filled
      rw [kept filled]
      exact .inr rfl
  · cases h

theorem sign_of_ofFloat? {x : Float} {d : Decimal} (h : ofFloat? x = some d) :
    d.sign = 0 ∨ d.sign = (steps x).sign := by
  rw [ofFloat?] at h
  simp only at h
  split at h
  · cases h
  split at h
  · cases h
    exact .inl rfl
  rename_i filled
  have nonzero : steps x ≠ 0 := fun zero => filled (Binary64.steps_eq_zero_iff.1 zero)
  rw [Binary64.sign_steps nonzero]
  -- the sign bit is left out only if no digits are left
  split at h
  · exact sign_of_make? h fun _ => rfl
  · exact sign_of_make? h fun digits => by rw [bne_iff_ne.2 digits, Bool.and_true]

variable {d : Decimal}

theorem signed_natCast (n : Nat) : Signed false (Binary64.ofInt n) := by
  have sign := Binary64.signed_ofInt n
  rwa [decide_eq_false (by omega)] at sign

theorem scales_unit (d : Decimal) : Scales false (Binary64.ofInt (tenTo d.scale)) := by
  have positive : (0 : Int) < tenTo d.scale := Int.natCast_pos.2 (tenTo_pos d.scale)
  have bounded := Binary64.nearestMagnitude_le (tenTo d.scale) 1
  have size : Binary64.magnitude (Binary64.ofInt (tenTo d.scale)) =
      Binary64.nearestMagnitude (tenTo d.scale) 1 := Binary64.magnitude_ofMagnitude bounded
  have largest : Binary64.nearestMagnitude (tenTo 28) 1 < Binary64.infinityBits := by decide +kernel
  have sign := Binary64.sign_steps_ofInt (tenTo d.scale)
  rw [Int.sign_eq_one_of_pos positive] at sign
  refine ⟨?_, ?_, ?_⟩
  · refine Nat.pos_of_ne_zero fun zero => ?_
    rw [Binary64.steps_eq_zero_iff.2 zero] at sign
    cases sign
  · rw [size]
    exact Nat.lt_of_le_of_lt (Binary64.nearestMagnitude_mono (tenTo_le_tenTo d.scale_le)) largest
  · exact (signed_natCast (tenTo d.scale)).isNegative_eq

theorem roundAway_nonneg {x : Float} (h : Signed false x) : 0 ≤ Binary64.roundAway x := by
  rw [Binary64.roundAway, Binary64.signed, h.isNegative_eq, if_neg Bool.false_ne_true]
  exact Int.natCast_nonneg _

theorem signed_rounded {w f u : Float} (whole : Signed false w) (fraction : Signed false f)
    (unit : Scales false u) :
    Signed false (Binary64.ofInt (Binary64.roundAway ((w + f / u) * u)) / u) := by
  have quotient : Signed false (f / u) := by simpa only [bne_self_eq_false] using fraction.div unit
  have product : Signed false ((w + f / u) * u) := by
    simpa only [bne_self_eq_false] using (whole.add quotient).mul unit
  have places := Binary64.signed_ofInt (Binary64.roundAway ((w + f / u) * u))
  rw [decide_eq_false (Int.not_lt.2 (roundAway_nonneg product))] at places
  simpa only [bne_self_eq_false] using places.div unit

def size (d : Decimal) : Float :=
  if d.mantissa % tenTo d.scale = 0 then Binary64.ofInt (d.mantissa / tenTo d.scale : Nat)
  else
    Binary64.ofInt (Binary64.roundAway ((Binary64.ofInt (d.mantissa / tenTo d.scale : Nat) +
      Binary64.ofInt (d.mantissa % tenTo d.scale : Nat) / Binary64.ofInt (tenTo d.scale)) *
      Binary64.ofInt (tenTo d.scale))) / Binary64.ofInt (tenTo d.scale)

theorem toFloat_eq (d : Decimal) :
    d.toFloat = if d.negative && (d.mantissa != 0 || d.scale != 0) then -d.size else d.size :=
  rfl

theorem signed_size (d : Decimal) : Signed false d.size := by
  rw [size]
  split
  · exact signed_natCast _
  · exact signed_rounded (signed_natCast _) (signed_natCast _) (scales_unit d)

theorem signed_toFloat (filled : d.mantissa ≠ 0) : Signed d.negative d.toFloat := by
  have shown : (d.mantissa != 0 || d.scale != 0) = true := by simp [filled]
  rw [toFloat_eq, shown, Bool.and_true]
  cases d.negative with
  | true =>
    rw [if_pos rfl]
    exact (signed_size d).neg
  | false =>
    rw [if_neg Bool.false_ne_true]
    exact signed_size d

end RecordPipeline.Decimal
