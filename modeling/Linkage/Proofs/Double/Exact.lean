import Linkage.Proofs.Double.Sum

/-
# Doubles that need no rounding

A mantissa of 53 bits is not changed by rounding, also if it comes with zeros behind it.  So natural
numbers below `2 ^ 53` become doubles as they are, and so do their quotients by `2 ^ 53`: the
mantissa stays, the exponent falls by 53.
-/

namespace Linkage.Double

open Float.Model (Format totalExponent UnpackedFloat)
open Float.Model.UnpackedFloat

variable {s : Sign} {m : Nat} {e : Int}

theorem log2_eq_of_normal (hlow : 2 ^ 52 ≤ m) (hhigh : m < 2 ^ 53) : m.log2 = 52 :=
  (Nat.log2_eq_iff (by omega)).mpr ⟨hlow, hhigh⟩

theorem roundWithAccuracy_shiftLeft (hlow : 2 ^ 52 ≤ m) (hhigh : m < 2 ^ 53) (he : -1074 ≤ e)
    (j : Nat) : roundWithAccuracy Format.binary64 s (m <<< j) (e - j) .exact =
      .finite s m e (Nat.lt_of_lt_of_le (by decide) hlow) := by
  have hlog := log2_eq_of_normal hlow hhigh
  have hm : m ≠ 0 := by omega
  have hfirst : shiftToTargetExponent Format.binary64 (m <<< j) (e - j) .exact =
      (ExtendedMantissa.mk (m <<< j) false false >>> j, e) := by
    rw [shiftToTargetExponent, targetExponent_eq, log2_shiftLeft hm, hlog, shiftToExponent]
    have hshift : (max (((52 + j : Nat) : Int) + (e - j) - 52) (-1074) - (e - j)).toNat = j := by
      omega
    rw [hshift]
    exact Prod.ext rfl (by simp)
  have hmantissa : (m <<< j) / 2 ^ j = m := by
    rw [Nat.shiftLeft_eq, Nat.mul_div_cancel _ (Nat.two_pow_pos j)]
  have hround : (ExtendedMantissa.mk (m <<< j) false false >>> j).roundedMantissa = m := by
    rw [roundedMantissa_of_roundBit, mantissa_shiftRight, hmantissa]
    cases j with
    | zero => rfl
    | succ j =>
        rw [roundBit_shiftRight]
        simp only [Nat.shiftLeft_eq, pow_succ]
        rw [show m * (2 ^ j * 2) = m * 2 * 2 ^ j by ring, Nat.mul_div_cancel _ (Nat.two_pow_pos j)]
        simp
  have hsecond : shiftToTargetExponent Format.binary64 m e .exact =
      (ExtendedMantissa.mk m false false, e) := by
    rw [shiftToTargetExponent, targetExponent_eq, hlog, shiftToExponent]
    have hshift : (max (((52 : Nat) : Int) + e - 52) (-1074) - e).toNat = 0 := by omega
    rw [hshift]
    exact Prod.ext rfl (by simp)
  simp only [roundWithAccuracy, hfirst, hround, hsecond]
  rw [dif_neg hm]

theorem unpack_pack_finite (hlow : 2 ^ 52 ≤ m) (hhigh : m < 2 ^ 53) (he : -1074 ≤ e) (he' : e ≤ 971)
    (hm : 0 < m) : unpack Format.binary64 (pack Format.binary64 (.finite s m e hm)) =
      .finite s m e hm := by
  have hbias : (Format.binary64.exponentBias : Int) = 1023 := rfl
  have hwidth : (Format.binary64.mantissaBitsWithoutImplicit : Int) = 52 := rfl
  set biased := (e + 1023 + 52).toNat with hbiased
  have hpack : pack Format.binary64 (.finite s m e hm) =
      packComponents Format.binary64 s (BitVec.ofNat 11 biased) (BitVec.ofNat 52 m) := by
    have hsmall : ¬ 2 ^ Format.binary64.exponentBits ≤ biased + 1 := by
      change ¬ 2 ^ 11 ≤ biased + 1
      omega
    have hbits : m.log2 + 1 = Format.binary64.mantissaBits :=
      congrArg (· + 1) (log2_eq_of_normal hlow hhigh)
    simp only [pack, hbias, hwidth, ← hbiased]
    rw [if_neg hsmall, if_pos hbits]
  have hexponent : (BitVec.ofNat 11 biased).toNat = biased := by
    rw [BitVec.toNat_ofNat]
    omega
  have hne : BitVec.ofNat 11 biased ≠ -1#11 := by
    intro h
    have := congrArg BitVec.toNat h
    rw [hexponent, show (-1#11).toNat = 2047 from rfl] at this
    omega
  have hne' : BitVec.ofNat 11 biased ≠ 0#11 := by
    intro h
    have := congrArg BitVec.toNat h
    rw [hexponent, BitVec.toNat_zero] at this
    omega
  have hmantissa : (1#1 ++ BitVec.ofNat 52 m).toNat = m := by
    rw [BitVec.toNat_append, BitVec.toNat_ofNat, Nat.shiftLeft_eq, Nat.or_comm]
    change m % 2 ^ 52 ||| 1 * 2 ^ 52 = m
    rw [one_mul, Nat.or_two_pow_eq_add_of_lt (Nat.mod_lt m (Nat.two_pow_pos 52))]
    omega
  rw [hpack]
  simp only [unpack, unpackMantissa_packComponents, unpackExponent_packComponents,
    unpackSign_packComponents, Sign.ofBitVec_toBitVec, hbias, hwidth]
  rw [if_neg hne, if_neg hne']
  refine (UnpackedFloat.finite.injEq ..).mpr ⟨rfl, hmantissa, ?_⟩
  rw [hexponent]
  omega

/-! ## Natural numbers and their parts of `2 ^ 53` -/

/-- A natural number below `2 ^ 53` with its first bit at place 52. -/
def leading (n : Nat) : Nat :=
  n <<< (52 - n.log2)

theorem leading_bounds {n : Nat} (hn : n ≠ 0) (hlt : n < 2 ^ 53) :
    2 ^ 52 ≤ leading n ∧ leading n < 2 ^ 53 := by
  have hlog : n.log2 < 53 := (log2_lt_iff (by omega)).mpr hlt
  have hleading : (leading n).log2 = 52 := by
    rw [leading, log2_shiftLeft hn]
    omega
  refine (Nat.log2_eq_iff ?_).mp hleading
  intro hzero
  rw [hzero] at hleading
  exact absurd hleading (by decide)

theorem view_toFloat {w : UInt64} (hw : w.toNat ≠ 0) (hlt : w.toNat < 2 ^ 53) :
    view w.toFloat = .finite .positive (leading w.toNat) (-(52 - w.toNat.log2 : Nat))
      (Nat.lt_of_lt_of_le (by decide) (leading_bounds hw hlt).1) := by
  obtain ⟨hlow, hhigh⟩ := leading_bounds hw hlt
  have hlog : w.toNat.log2 < 53 := (log2_lt_iff (by omega)).mpr hlt
  have hround : UnpackedFloat.round Format.binary64 .positive w.toNat 0 =
      .finite .positive (leading w.toNat) (-(52 - w.toNat.log2 : Nat))
        (Nat.lt_of_lt_of_le (by decide) hlow) := by
    rw [UnpackedFloat.round, targetExponent_eq, decreaseExponent]
    have hshift : (0 - max ((w.toNat.log2 : Int) + 0 - 52) (-1074)).toNat = 52 - w.toNat.log2 := by
      omega
    have hexact := @roundWithAccuracy_shiftLeft .positive _ (-(52 - w.toNat.log2 : Nat)) hlow hhigh
      (by omega) 0
    rw [Nat.shiftLeft_zero, Nat.cast_zero, Int.sub_zero] at hexact
    simp only [hshift]
    rw [Int.zero_sub]
    exact hexact
  have hview : view w.toFloat =
      unpack Format.binary64 (pack Format.binary64 (UnpackedFloat.normalize Format.binary64
        (w.toNat : Int) 0 .positive)) := rfl
  rw [hview, UnpackedFloat.normalize, Int.compare_eq_gt.mpr (by omega)]
  simp only [Int.toNat_natCast]
  rw [hround]
  exact unpack_pack_finite hlow hhigh (by omega) (by omega) _

/-- A quotient by `2 ^ 53`. -/
theorem view_div {x : Float} (hlow : 2 ^ 52 ≤ m) (hhigh : m < 2 ^ 53) (he : -1020 ≤ e) (he' : e ≤ 970)
    (hm : 0 < m) (hx : view x = .finite .positive m e hm) :
    view (x / 9007199254740992.0) = .finite .positive m (e - 53) hm := by
  have hden : view 9007199254740992.0 = .finite .positive (2 ^ 52) 1 (by decide) := rfl
  have hcore : divCore Format.binary64 m e (2 ^ 52) 1 = (m <<< 1, e - 53 - (1 : Nat), .exact) := by
    have hlog := log2_eq_of_normal hlow hhigh
    have htarget : Format.binary64.targetExponent
        (totalExponent m e - totalExponent (2 ^ 52) 1) = e - 54 := by
      simp only [Format.targetExponent, totalExponent, Format.mantissaBits, Format.minExponent, hlog,
        Nat.log2_two_pow]
      omega
    have hshift : (e - 1 - min (e - 1) (e - 54)).toNat = 53 := by omega
    have hmul : m <<< 53 = (m <<< 1) * 2 ^ 52 := by
      rw [Nat.shiftLeft_eq, Nat.shiftLeft_eq]
      ring
    simp only [divCore, htarget, hshift, hmul]
    rw [Nat.mul_div_cancel _ (Nat.two_pow_pos 52), Nat.mul_mod_left, accuracyOfFraction, if_pos rfl]
    refine Prod.ext rfl (Prod.ext ?_ rfl)
    simp only
    omega
  have hdiv : view (x / 9007199254740992.0) = unpack Format.binary64 (pack Format.binary64
      (UnpackedFloat.div Format.binary64 (view x) (view 9007199254740992.0))) := rfl
  rw [hdiv, hx, hden, UnpackedFloat.div, hcore]
  simp only
  rw [show (Sign.positive / Sign.positive : Sign) = .positive from rfl,
    roundWithAccuracy_shiftLeft hlow hhigh (by omega) 1]
  exact unpack_pack_finite hlow hhigh (by omega) (by omega) _

end Linkage.Double
