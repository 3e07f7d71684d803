import Mathlib

/-
# Rounding sums of doubles

A double that is neither infinite nor undefined is zero or a mantissa of 53 bits with an exponent.
The exponent of a sum can only grow by a carry, and a carry needs a second summand that reaches the
last bit of the first.  So sums whose summands are all small enough stay below any bound that one
of them keeps, however many there are.

Rounding shifts the mantissa to the right and looks at the bits that fall off: the last of them
decides between rounding down and rounding up.
-/

namespace Linkage.Double

open Float.Model (Format totalExponent UnpackedFloat)
open Float.Model.UnpackedFloat

/-! ## Shifting -/

theorem mantissa_shiftRight (x : ExtendedMantissa) (n : Nat) :
    (x >>> n).mantissa = x.mantissa / 2 ^ n := by
  change (n.repeat ExtendedMantissa.shiftRightOne x).mantissa = _
  induction n with
  | zero => simp [Nat.repeat]
  | succ n ih =>
      rw [Nat.repeat, ExtendedMantissa.shiftRightOne, ih, Nat.div_div_eq_div_mul, pow_succ]

theorem roundBit_shiftRight (x : ExtendedMantissa) (n : Nat) :
    (x >>> (n + 1)).roundBit = (x.mantissa / 2 ^ n % 2 != 0) := by
  rw [← mantissa_shiftRight]
  rfl

theorem roundedMantissa_le (x : ExtendedMantissa) : x.roundedMantissa ≤ x.mantissa + 1 := by
  obtain ⟨m, round, sticky⟩ := x
  cases round <;> cases sticky <;>
    simp [ExtendedMantissa.roundedMantissa, ExtendedMantissa.accuracy, Accuracy.roundToNearestEven]
  omega

theorem roundedMantissa_of_roundBit {x : ExtendedMantissa} (h : x.roundBit = false) :
    x.roundedMantissa = x.mantissa := by
  obtain ⟨m, round, sticky⟩ := x
  cases h
  cases sticky <;> rfl

/-- Half a unit of the last place is not enough to round up to a carry. -/
theorem roundedMantissa_shiftRight_lt {x : ExtendedMantissa} {n : Nat} (hn : 0 < n)
    (h : 4 * x.mantissa < (2 ^ 55 - 3) * 2 ^ n) : (x >>> n).roundedMantissa < 2 ^ 53 := by
  obtain ⟨n, rfl⟩ : ∃ k, n = k + 1 := ⟨n - 1, by omega⟩
  have hhalf : 2 * (x.mantissa / 2 ^ n) < 2 ^ 55 - 3 := by
    have hle := Nat.div_mul_le_self x.mantissa (2 ^ n)
    by_contra hge
    have := Nat.mul_le_mul_right (2 ^ n) (Nat.le_of_not_lt hge)
    rw [Nat.mul_assoc] at this
    rw [pow_succ] at h
    omega
  have hwhole : (x >>> (n + 1)).mantissa = x.mantissa / 2 ^ n / 2 := by
    rw [mantissa_shiftRight, pow_succ, Nat.div_div_eq_div_mul]
  cases hround : (x >>> (n + 1)).roundBit with
  | false =>
      rw [roundedMantissa_of_roundBit hround, hwhole]
      omega
  | true =>
      have hodd : x.mantissa / 2 ^ n % 2 ≠ 0 := by
        simpa [roundBit_shiftRight] using hround
      have := roundedMantissa_le (x >>> (n + 1))
      omega

/-! ## Rounding -/

/-- Zero, or a finite number with an exponent that is within a bound. -/
def Within (bound : Int) : UnpackedFloat → Prop
  | .zero _ => True
  | .finite _ _ exponent _ => exponent ≤ bound
  | _ => False

theorem log2_lt_iff {m n : Nat} (hn : 0 < n) : m.log2 < n ↔ m < 2 ^ n := by
  cases m with
  | zero => simp [hn]
  | succ m => exact Nat.log2_lt (Nat.succ_ne_zero m)

theorem log2_shiftLeft {m : Nat} (hm : m ≠ 0) (n : Nat) : (m <<< n).log2 = m.log2 + n := by
  induction n with
  | zero => rfl
  | succ n ih =>
      have hne : m <<< n ≠ 0 := by
        rw [Nat.shiftLeft_eq]
        exact Nat.mul_ne_zero hm (Nat.two_pow_pos n).ne'
      rw [Nat.shiftLeft_succ, Nat.log2_two_mul hne, ih]
      omega

theorem targetExponent_eq (m : Nat) (e : Int) :
    Format.binary64.targetExponent (totalExponent m e) = max (m.log2 + e - 52) (-1074) := by
  simp only [Format.targetExponent, totalExponent, Format.mantissaBits, Format.minExponent]
  omega

theorem within_roundWithAccuracy {s : Sign} {m : Nat} {e t bound : Int}
    (ht : Format.binary64.targetExponent (totalExponent m e) = t) (he : e ≤ t) (hbound : t ≤ bound)
    (hcarry : t = bound →
      (ExtendedMantissa.mk m false false >>> (t - e).toNat).roundedMantissa < 2 ^ 53) :
    Within bound (roundWithAccuracy Format.binary64 s m e .exact) := by
  set rounded := (ExtendedMantissa.mk m false false >>> (t - e).toNat).roundedMantissa with hrounded
  have hshift : shiftToTargetExponent Format.binary64 m e .exact =
      (ExtendedMantissa.mk m false false >>> (t - e).toNat, t) := by
    rw [shiftToTargetExponent, ht, shiftToExponent]
    exact Prod.ext rfl (by simp only; omega)
  rw [targetExponent_eq] at ht
  have hle : rounded < 2 ^ 54 := by
    have hlog : m.log2 < 53 + (t - e).toNat := by omega
    have hdiv : m / 2 ^ (t - e).toNat < 2 ^ 53 := by
      rw [Nat.div_lt_iff_lt_mul (Nat.two_pow_pos _), ← pow_add]
      exact (log2_lt_iff (by omega)).mp hlog
    have hround := roundedMantissa_le (ExtendedMantissa.mk m false false >>> (t - e).toNat)
    rw [mantissa_shiftRight] at hround
    change rounded ≤ m / 2 ^ (t - e).toNat + 1 at hround
    omega
  have hfinal : (shiftToTargetExponent Format.binary64 rounded t .exact).2 ≤ bound := by
    rw [shiftToTargetExponent, targetExponent_eq, shiftToExponent]
    have hlog := (log2_lt_iff (by omega)).mpr hle
    have hlog' := fun h => (log2_lt_iff (by omega)).mpr (hcarry h)
    simp only
    omega
  simp only [roundWithAccuracy, hshift, ← hrounded]
  split
  · trivial
  · exact hfinal

/-- Rounding keeps a bound on the exponent if half a unit of the last place is to spare. -/
theorem within_round {s : Sign} {m : Nat} {e : Int} {n : Nat} (hm : 0 < m) (hn : 0 < n)
    (hlt : 4 * m < (2 ^ 55 - 3) * 2 ^ n) (hbound : -1074 ≤ e + n) :
    Within (e + n) (UnpackedFloat.round Format.binary64 s m e) := by
  have hlog : m.log2 < 53 + n := by
    rw [log2_lt_iff (by omega), pow_add]
    omega
  rw [UnpackedFloat.round, targetExponent_eq, decreaseExponent]
  set t := max (m.log2 + e - 52) (-1074) with ht
  by_cases he : e ≤ t
  · have hzero : (e - t).toNat = 0 := by omega
    simp only [hzero, Nat.shiftLeft_zero, Nat.cast_zero, Int.sub_zero]
    refine within_roundWithAccuracy (targetExponent_eq m e) he (by omega) ?_
    intro h
    have hshift : (max (m.log2 + e - 52) (-1074) - e).toNat = n := by omega
    rw [hshift]
    exact roundedMantissa_shiftRight_lt hn hlt
  · have htarget : Format.binary64.targetExponent
        (totalExponent (m <<< (e - t).toNat) (e - (e - t).toNat)) = t := by
      rw [targetExponent_eq, log2_shiftLeft hm.ne']
      omega
    exact within_roundWithAccuracy htarget (by omega) (by omega) fun h => by omega

theorem within_normalize {m e : Int} {zero : Sign} {n : Nat} (hn : 0 < n)
    (hlt : 4 * m.natAbs < (2 ^ 55 - 3) * 2 ^ n) (hbound : -1074 ≤ e + n) :
    Within (e + n) (UnpackedFloat.normalize Format.binary64 m e zero) := by
  rw [UnpackedFloat.normalize]
  split
  case h_1 hneg =>
    have hneg := Int.compare_eq_lt.mp hneg
    exact within_round (by omega) hn (by omega) hbound
  case h_2 => trivial
  case h_3 hpos =>
    have hpos := Int.compare_eq_gt.mp hpos
    exact within_round (by omega) hn (by omega) hbound

/-! ## Adding -/

/-- A mantissa of at most 53 bits. -/
def Short : UnpackedFloat → Prop
  | .finite _ mantissa _ _ => mantissa < 2 ^ 53
  | _ => True

theorem natAbs_apply (s : Sign) (m : Nat) : (s.apply m).natAbs = m := by
  cases s <;> simp [Sign.apply]

theorem Within.mono {low high : Int} (h : low ≤ high) {x : UnpackedFloat} (hx : Within low x) :
    Within high x := by
  cases x with
  | zero => trivial
  | finite => exact Int.le_trans hx h
  | infinity => exact hx
  | notANumber => exact hx

/-- Two mantissas of 53 bits, of which the second is shifted less by 55 places. -/
theorem shifted_sum_lt {m m' i j n : Nat} (hm : m < 2 ^ 53) (hm' : m' < 2 ^ 53) (hi : i ≤ n)
    (hj : j + 55 ≤ n) : 4 * (m <<< i + m' <<< j) < (2 ^ 55 - 3) * 2 ^ n := by
  obtain ⟨k, rfl⟩ := Nat.exists_eq_add_of_le' hj
  simp only [Nat.shiftLeft_eq]
  have hfirst : m * 2 ^ i ≤ (2 ^ 53 - 1) * 2 ^ (k + (j + 55)) :=
    Nat.mul_le_mul (by omega) (Nat.pow_le_pow_right (by omega) hi)
  have hsecond : m' * 2 ^ j ≤ (2 ^ 53 - 1) * 2 ^ (k + j) :=
    Nat.mul_le_mul (by omega) (Nat.pow_le_pow_right (by omega) (by omega))
  have hpow : 2 ^ (k + (j + 55)) = 2 ^ 55 * 2 ^ (k + j) := by
    rw [← Nat.pow_add]
    congr 1
    omega
  have hpos := Nat.two_pow_pos (k + j)
  omega

/-- A summand below half a unit of the last place of a bound does not lift a sum above it. -/
theorem within_add {x y : UnpackedFloat} {bound : Int} (hx : Within bound x)
    (hy : Within (bound - 55) y) (hxs : Short x) (hys : Short y) (hbound : -1074 ≤ bound) :
    Within bound (UnpackedFloat.add Format.binary64 x y) := by
  cases x with
  | infinity => exact hx.elim
  | notANumber => exact hx.elim
  | zero s =>
      cases y with
      | infinity => exact hy.elim
      | notANumber => exact hy.elim
      | zero s' => rw [UnpackedFloat.add]; split <;> trivial
      | finite => exact hy.mono (by omega)
  | finite s m e hm =>
      cases y with
      | infinity => exact hy.elim
      | notANumber => exact hy.elim
      | zero => exact hx
      | finite s' m' e' hm' =>
          change e ≤ bound at hx
          change e' ≤ bound - 55 at hy
          obtain ⟨n, hn⟩ : ∃ n : Nat, min e e' + n = bound := ⟨(bound - min e e').toNat, by omega⟩
          have hlt := shifted_sum_lt (i := (e - min e e').toNat) (j := (e' - min e e').toNat) (n := n)
            hxs hys (by omega) (by omega)
          rw [UnpackedFloat.add, ← hn]
          refine within_normalize (by omega) (Nat.lt_of_le_of_lt ?_ hlt) (by omega)
          have habs := Int.natAbs_add_le (s.apply (m <<< (e - min e e').toNat : Nat))
            (s'.apply (m' <<< (e' - min e e').toNat : Nat))
          rw [natAbs_apply, natAbs_apply] at habs
          exact Nat.mul_le_mul_left 4 habs

end Linkage.Double
