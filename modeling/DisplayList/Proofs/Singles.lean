import Mathlib

/-!
# Whole numbers in single precision

A number in single precision has 24 bits of significand, so a whole number of fewer bits
has a place among them and its conversion rounds nothing away. That is shown in the logical
reading of floats: the conversions end in one rounding of an exact product, and a significand
of 24 bits comes out of a rounding as it went in.
-/
namespace DisplayList.Single

open Float.Model Float.Model.UnpackedFloat

/-- The number that a single-precision number stands for, if it is finite. -/
def value? (x : Float32) : Option ℚ :=
  match x.toModel.unpack with
  | .zero _ => some 0
  | .finite sign significand exponent _ => some (sign.apply significand * 2 ^ exponent)
  | _ => none

theorem shiftRight_exact (m k : Nat) :
    (⟨m * 2 ^ k, false, false⟩ : ExtendedMantissa) >>> k = ⟨m, false, false⟩ := by
  show Nat.repeat _ k _ = _
  induction k generalizing m with
  | zero => simp [Nat.repeat]
  | succ k ih =>
    have hdouble : m * 2 ^ (k + 1) = (m * 2) * 2 ^ k := by ring
    rw [Nat.repeat, hdouble, ih]
    simp [ExtendedMantissa.shiftRightOne]

theorem log2_mul_pow {m : Nat} (hm : m ≠ 0) (k : Nat) : (m * 2 ^ k).log2 = m.log2 + k := by
  induction k with
  | zero => simp
  | succ k ih =>
    have hdouble : m * 2 ^ (k + 1) = 2 * (m * 2 ^ k) := by ring
    rw [hdouble, Nat.log2_two_mul (by positivity), ih, Nat.add_assoc]

/-- A significand of 24 bits is not rounded. -/
theorem roundWithAccuracy_exact (sign : Sign) {m : Nat} {e : Int} (hpos : 0 < m)
    (hm : m.log2 = 23) (he : -149 ≤ e) (k : Nat) :
    roundWithAccuracy .binary32 sign (m * 2 ^ k) (e - k) .exact = .finite sign m e hpos := by
  have hshift (k : Nat) : shiftToTargetExponent .binary32 (m * 2 ^ k) (e - k) .exact =
      (⟨m, false, false⟩, e) := by
    have htarget : Format.binary32.targetExponent (totalExponent (m * 2 ^ k) (e - k)) = e := by
      simp only [Format.targetExponent, totalExponent, Format.mantissaBits, Format.minExponent,
        log2_mul_pow hpos.ne', hm]
      norm_num
      omega
    have hcount : (e - (e - k)).toNat = k := by omega
    simp only [shiftToTargetExponent, shiftToExponent, htarget, hcount,
      ExtendedMantissa.ofMantissaAndAccuracy, shiftRight_exact, Int.sub_add_cancel]
  have hround : (⟨m, false, false⟩ : ExtendedMantissa).roundedMantissa = m := rfl
  have hagain : shiftToTargetExponent .binary32 m e .exact = (⟨m, false, false⟩, e) := by
    simpa using hshift 0
  simp only [roundWithAccuracy, hshift, hround, hagain]
  rw [dif_neg hpos.ne']

/-- A normal number is read back from its bits. -/
theorem unpack_pack (sign : Sign) {m : Nat} {e : Int} (hpos : 0 < m) (hm : m.log2 = 23)
    (hlow : -149 ≤ e) (hhigh : e ≤ 104) :
    UnpackedFloat.unpack .binary32 (UnpackedFloat.pack .binary32 (.finite sign m e hpos)) =
      .finite sign m e hpos := by
  obtain ⟨hge, hlt⟩ := (Nat.log2_eq_iff hpos.ne').mp hm
  obtain ⟨b, hb⟩ : ∃ b : Nat, e = b - 150 := ⟨(e + 150).toNat, by omega⟩
  subst hb
  have hbias : ((b : Int) - 150 + (Format.binary32.exponentBias : Int) + (23 : Nat)).toNat = b := by
    norm_num [Format.exponentBias]
    omega
  have hpack : UnpackedFloat.pack .binary32 (.finite sign m (b - 150) hpos) =
      packComponents .binary32 sign (BitVec.ofNat 8 b) (BitVec.ofNat 23 m) := by
    simp only [UnpackedFloat.pack, hbias, hm, Format.mantissaBits]
    rw [if_neg (by norm_num; omega), if_pos trivial]
  have hexponent : (BitVec.ofNat 8 b).toNat = b := by
    simp
    omega
  have hsignificand : (1#1 ++ BitVec.ofNat 23 m).toNat = m := by
    rw [BitVec.toNat_append, ← Nat.shiftLeft_add_eq_or_of_lt (BitVec.isLt _)]
    simp
    omega
  have htop : BitVec.ofNat 8 b ≠ -1#8 := by
    rw [← BitVec.toNat_ne_iff_ne, hexponent]
    simp
    omega
  have hbottom : BitVec.ofNat 8 b ≠ 0#8 := by
    rw [← BitVec.toNat_ne_iff_ne, hexponent]
    simp
    omega
  rw [hpack, UnpackedFloat.unpack]
  simp only [unpackMantissa_packComponents, unpackExponent_packComponents,
    unpackSign_packComponents, Sign.ofBitVec_toBitVec]
  rw [if_neg htop, if_neg hbottom]
  simp only [hexponent, hsignificand, finite.injEq, true_and]
  norm_num [Format.exponentBias]

variable {n : Nat}

/-- The significand of a whole number, all of its 24 bits in use. -/
def significand (n : Nat) : Nat :=
  n * 2 ^ (23 - n.log2)

theorem significand_pos (hn : 0 < n) : 0 < significand n := by
  unfold significand
  positivity

theorem log2_significand (hn : 0 < n) (hlt : n < 2 ^ 24) : (significand n).log2 = 23 := by
  have hlog := (Nat.log2_lt hn.ne').mpr hlt
  rw [significand, log2_mul_pow hn.ne']
  omega

/-- A whole number other than zero, of at most 24 bits, its size and sign apart. -/
def whole (sign : Sign) (n : Nat) (hn : 0 < n) : UnpackedFloat :=
  .finite sign (significand n) (n.log2 - 23) (significand_pos hn)

theorem unpack_pack_whole (sign : Sign) (hn : 0 < n) (hlt : n < 2 ^ 24) :
    (Float32.Model.pack (whole sign n hn)).unpack = whole sign n hn := by
  have hlog := (Nat.log2_lt hn.ne').mpr hlt
  exact unpack_pack sign (significand_pos hn) (log2_significand hn hlt) (by omega) (by omega)

theorem round_whole (sign : Sign) (hn : 0 < n) (hlt : n < 2 ^ 24) :
    UnpackedFloat.round .binary32 sign n 0 = whole sign n hn := by
  have hlog := (Nat.log2_lt hn.ne').mpr hlt
  have htarget : Format.binary32.targetExponent (totalExponent n 0) = n.log2 - 23 := by
    simp only [Format.targetExponent, totalExponent, Format.mantissaBits, Format.minExponent]
    norm_num
    omega
  have hshift : decreaseExponent n 0 (n.log2 - 23) = (significand n, (n.log2 : Int) - 23) := by
    have hcount : (0 - ((n.log2 : Int) - 23)).toNat = 23 - n.log2 := by omega
    simp only [decreaseExponent, hcount, Nat.shiftLeft_eq, significand, Prod.mk.injEq, true_and]
    omega
  have hexact := roundWithAccuracy_exact sign (significand_pos hn) (log2_significand hn hlt)
    (show -149 ≤ (n.log2 : Int) - 23 by omega) 0
  simp only [UnpackedFloat.round, htarget, hshift]
  simpa [whole] using hexact

theorem ofNat_whole (hn : 0 < n) (hlt : n < 2 ^ 24) :
    UnpackedFloat.ofNat .binary32 n = whole .positive n hn := by
  have hcompare : compare (n : Int) 0 = .gt := by
    rw [compare_gt_iff_gt]
    exact_mod_cast hn
  rw [← round_whole .positive hn hlt]
  simp only [UnpackedFloat.ofNat, UnpackedFloat.ofInt, UnpackedFloat.normalize, hcompare,
    Int.toNat_natCast]

/-- One is no factor. -/
theorem mul_one_whole (hn : 0 < n) (hlt : n < 2 ^ 24) :
    Float32.Model.pack (whole .positive n hn) * (Float32.ofBits 1065353216).toModel =
      Float32.Model.pack (whole .positive n hn) := by
  have hone : (Float32.ofBits 1065353216).toModel.unpack =
      .finite .positive (2 ^ 23) (-23) (by positivity) := rfl
  have hlog := (Nat.log2_lt hn.ne').mpr hlt
  have hexact := roundWithAccuracy_exact .positive (significand_pos hn) (log2_significand hn hlt)
    (show -149 ≤ (n.log2 : Int) - 23 by omega) 23
  show Float32.Model.pack (UnpackedFloat.mul _ _ _) = _
  rw [unpack_pack_whole .positive hn hlt, hone]
  exact congrArg Float32.Model.pack hexact

theorem ofNat_eq_pack (hn : 0 < n) (hlt : n < 2 ^ 23) :
    Float32.ofNat n = ⟨Float32.Model.pack (whole .positive n hn)⟩ := by
  have hword : n.toUInt64.toNat = n := by
    simp
    omega
  have hfloat : n.toUInt64.toFloat32 = ⟨Float32.Model.pack (whole .positive n hn)⟩ := by
    rw [← ofNat_whole hn (by omega)]
    simp only [UInt64.toFloat32, Float32.Model.ofUInt64, UnpackedFloat.ofUInt64, hword]
  have hscientific : Float32.ofNat n = n.toUInt64.toFloat32 * Float32.ofBits 1065353216 := by
    show Float32.ofScientific n false 0 = _
    rw [Float32.ofScientific, dif_pos ⟨hlt, by decide⟩]
    rfl
  rw [hscientific, hfloat]
  exact congrArg Float32.ofModel (mul_one_whole hn (by omega))

theorem value?_whole (sign : Sign) (hn : 0 < n) (hlt : n < 2 ^ 24) :
    value? ⟨Float32.Model.pack (whole sign n hn)⟩ = some (sign.apply n : ℤ) := by
  have hlog := (Nat.log2_lt hn.ne').mpr hlt
  have hscale : (significand n : ℚ) * 2 ^ ((n.log2 : ℤ) - 23) = n := by
    obtain ⟨k, hk⟩ : ∃ k, 23 = n.log2 + k := ⟨23 - n.log2, by omega⟩
    have hpower : (n.log2 : ℤ) - 23 = -(k : ℤ) := by omega
    rw [significand, hpower, show 23 - n.log2 = k by omega, zpow_neg, zpow_natCast]
    push_cast
    field_simp
  have hvalue : value? ⟨Float32.Model.pack (whole sign n hn)⟩ =
      some (((sign.apply (significand n) : ℤ) : ℚ) * 2 ^ ((n.log2 : ℤ) - 23)) := by
    rw [value?, unpack_pack_whole sign hn hlt, whole]
  rw [hvalue]
  cases sign with
  | positive => simpa [Sign.apply] using hscale
  | negative => simpa [Sign.apply] using hscale

/-- Whole numbers are converted exactly. -/
theorem value?_ofInt {i : Int} (hi : i.natAbs < 2 ^ 23) :
    value? (Float32.ofInt i) = some (i : ℚ) := by
  cases i with
  | ofNat n =>
    have hlt : n < 2 ^ 23 := hi
    rcases Nat.eq_zero_or_pos n with rfl | hn
    · rfl
    · show value? (Float32.ofNat n) = _
      rw [ofNat_eq_pack hn hlt, value?_whole .positive hn (by omega)]
      rfl
  | negSucc n =>
    have hlt : n + 1 < 2 ^ 23 := by simpa using hi
    have hneg : (Float32.ofNat (n + 1)).neg =
        ⟨Float32.Model.pack (whole .negative (n + 1) n.succ_pos)⟩ := by
      rw [ofNat_eq_pack n.succ_pos hlt]
      show Float32.ofModel (Float32.Model.pack (UnpackedFloat.neg _)) = _
      rw [unpack_pack_whole .positive n.succ_pos (by omega)]
      rfl
    show value? (Float32.ofNat (n + 1)).neg = _
    rw [hneg, value?_whole .negative n.succ_pos (by omega)]
    rfl

theorem value?_toFloat32 (b : UInt8) : value? b.toFloat32 = some (b.toNat : ℚ) := by
  have hlt := b.toNat_lt
  have hfloat : b.toFloat32 =
      ⟨Float32.Model.pack (UnpackedFloat.ofNat .binary32 b.toNat)⟩ := rfl
  rw [hfloat]
  rcases Nat.eq_zero_or_pos b.toNat with hzero | hn
  · rw [hzero]
    rfl
  · rw [ofNat_whole hn (by omega), value?_whole .positive hn (by omega)]
    rfl

end DisplayList.Single
