import Linkage.Proofs.Double.Exact

/-
# Rounding keeps the order

Rounding cuts a mantissa off behind its last place, and the two bits that are kept beside it say how
what was cut off compares with half of that place.  So they stand for the number that is rounded, and
a greater number is not rounded to a lesser one: with the last place the same, because the mantissas
and then the bits are in order, and with another last place, because a power of 2 lies between the
numbers.
-/

namespace Linkage.Double

open Float.Model (Format UnpackedFloat)
open Float.Model.UnpackedFloat

/-! ## What was cut off -/

/-- The number that a mantissa and what was cut off from it stand for. -/
def Stands (x : ℝ) (em : ExtendedMantissa) : Prop :=
  match em.accuracy with
  | .exact => x = em.mantissa
  | .inexact .lt => em.mantissa < x ∧ x < em.mantissa + 1 / (2 : ℕ)
  | .inexact .eq => x = em.mantissa + 1 / (2 : ℕ)
  | .inexact .gt => em.mantissa + 1 / (2 : ℕ) < x ∧ x < em.mantissa + 1

namespace Stands

variable {x y : ℝ} {em em' : ExtendedMantissa}

theorem natCast (m : Nat) : Stands m ⟨m, false, false⟩ :=
  rfl

theorem bounds (h : Stands x em) : em.mantissa ≤ x ∧ x < em.mantissa + 1 := by
  obtain ⟨m, round, sticky⟩ := em
  cases round <;> cases sticky <;>
    simp only [Stands, ExtendedMantissa.accuracy] at h ⊢ <;> constructor <;> linarith

theorem shiftRightOne (h : Stands x em) : Stands (x / 2) em.shiftRightOne := by
  obtain ⟨m, round, sticky⟩ := em
  have hm : (m : ℝ) = 2 * (m / 2 : ℕ) + (m % 2 : ℕ) := by exact_mod_cast (Nat.div_add_mod m 2).symm
  rcases Nat.mod_two_eq_zero_or_one m with hbit | hbit <;> rw [hbit] at hm <;>
    cases round <;> cases sticky <;>
    simp [Stands, ExtendedMantissa.accuracy, ExtendedMantissa.shiftRightOne, hbit] at h hm ⊢ <;>
    first | linarith | (constructor <;> linarith)

theorem shiftRight (h : Stands x em) (n : Nat) : Stands (x / 2 ^ n) (em >>> n) := by
  change Stands (x / 2 ^ n) (n.repeat ExtendedMantissa.shiftRightOne em)
  induction n with
  | zero => simpa [Nat.repeat] using h
  | succ n ih =>
      rw [Nat.repeat, pow_succ, ← div_div]
      exact ih.shiftRightOne

theorem mantissa_le_rounded (em : ExtendedMantissa) : em.mantissa ≤ em.roundedMantissa := by
  obtain ⟨m, round, sticky⟩ := em
  cases round <;> cases sticky <;>
    simp [ExtendedMantissa.roundedMantissa, ExtendedMantissa.accuracy, Accuracy.roundToNearestEven]

theorem rounded_mono (hx : Stands x em) (hy : Stands y em') (hle : x ≤ y) :
    em.roundedMantissa ≤ em'.roundedMantissa := by
  have hlt : (em.mantissa : ℝ) < em'.mantissa + 1 :=
    hx.bounds.1.trans_lt (hle.trans_lt hy.bounds.2)
  have hmantissa : em.mantissa ≤ em'.mantissa := by
    have hlt : em.mantissa < em'.mantissa + 1 := by exact_mod_cast hlt
    omega
  rcases hmantissa.lt_or_eq with hlt | heq
  · exact (roundedMantissa_le em).trans (hlt.trans_le (mantissa_le_rounded em'))
  · obtain ⟨m, round, sticky⟩ := em
    obtain ⟨m', round', sticky'⟩ := em'
    obtain rfl : m = m' := heq
    cases round <;> cases sticky <;> cases round' <;> cases sticky' <;>
      simp only [Stands, ExtendedMantissa.accuracy, ExtendedMantissa.roundedMantissa,
        Accuracy.roundToNearestEven] at hx hy ⊢ <;>
      first | omega | (exfalso; linarith)

end Stands

/-! ## Rounding to the last place -/

/-- A number `x` is rounded to `n` units of its last place, which is `2 ^ e`. -/
structure Rounds (x : ℝ) (n : Nat) (e : Int) : Prop where
  least : -1074 ≤ e
  lt : x < 2 ^ 53 * 2 ^ e
  normal : e = -1074 ∨ 2 ^ 52 * 2 ^ e ≤ x
  stands : ∃ em, Stands (x / 2 ^ e) em ∧ em.roundedMantissa = n

namespace Rounds

variable {x y : ℝ} {n k : Nat} {e i : Int}

/-- What is below a whole number of units is not rounded above it. -/
theorem le_of_le (h : Rounds x n e) (hle : x ≤ k * 2 ^ e) : n ≤ k := by
  obtain ⟨em, hem, rfl⟩ := h.stands
  exact hem.rounded_mono (Stands.natCast k) ((div_le_iff₀ (by positivity)).mpr hle)

theorem le_of_ge (h : Rounds x n e) (hle : k * 2 ^ e ≤ x) : k ≤ n := by
  obtain ⟨em, hem, rfl⟩ := h.stands
  exact (Stands.natCast k).rounded_mono hem ((le_div_iff₀ (by positivity)).mpr hle)

theorem eq_zero (h : Rounds 0 n e) : n = 0 :=
  Nat.le_zero.mp (h.le_of_le (by simp))

theorem mono (hx : Rounds x n e) (hy : Rounds y k i) (hle : x ≤ y) :
    (n : ℝ) * 2 ^ e ≤ k * 2 ^ i := by
  have hdouble : ∀ {i j : Int}, i < j → (2 : ℝ) ^ 53 * 2 ^ i ≤ 2 ^ 52 * 2 ^ j := by
    intro i j hij
    have hpow : (2 : ℝ) ^ (i + 1) ≤ 2 ^ j := zpow_le_zpow_right₀ one_le_two hij
    rw [zpow_add_one₀ two_ne_zero] at hpow
    linarith
  have hexponent : e ≤ i := by
    by_contra hlt
    rcases hx.normal with rfl | hnormal
    · exact hlt hy.least
    · exact absurd hy.lt (not_lt.mpr ((hdouble (not_le.mp hlt)).trans (hnormal.trans hle)))
  rcases hexponent.lt_or_eq with hlt | rfl
  · -- A power of 2 lies between the numbers.
    have hn : n ≤ 2 ^ 53 := hx.le_of_le (by exact_mod_cast hx.lt.le)
    have hnormal := hy.normal.resolve_left (hx.least.trans_lt hlt).ne'
    have hk : 2 ^ 52 ≤ k := hy.le_of_ge (by exact_mod_cast hnormal)
    calc (n : ℝ) * 2 ^ e ≤ 2 ^ 53 * 2 ^ e := by gcongr; exact_mod_cast hn
      _ ≤ 2 ^ 52 * 2 ^ i := hdouble hlt
      _ ≤ k * 2 ^ i := by gcongr; exact_mod_cast hk
  · obtain ⟨em, hem, rfl⟩ := hx.stands
    obtain ⟨em', hem', rfl⟩ := hy.stands
    have hrounded := hem.rounded_mono hem' (by gcongr)
    gcongr

end Rounds

/-! ## The outcome of rounding -/

/-- A number with a sign and a magnitude, in the form in which it is stored. -/
def Holds (x : UnpackedFloat) (s : Sign) (t : ℝ) : Prop :=
  x = .zero s ∧ t = 0 ∨ ∃ m e hm, x = .finite s m e hm ∧ t = m * (2 : ℕ) ^ e ∧
    m < 2 ^ 53 ∧ -1074 ≤ e ∧ (e = -1074 ∨ 2 ^ 52 ≤ m)

section

variable {s : Sign} {m : Nat} {e : Int}

theorem mantissa_bounds (hm : 0 < m) :
    (m : ℝ) * 2 ^ e < 2 ^ 53 * 2 ^ max (m.log2 + e - 52) (-1074) ∧
      (max (m.log2 + e - 52) (-1074) = -1074 ∨
        2 ^ 52 * 2 ^ max (m.log2 + e - 52) (-1074) ≤ (m : ℝ) * 2 ^ e) := by
  have hlow : (2 : ℝ) ^ m.log2 ≤ m := by exact_mod_cast Nat.log2_self_le hm.ne'
  have hhigh : (m : ℝ) < 2 ^ (m.log2 + 1) := by exact_mod_cast Nat.lt_log2_self
  constructor
  · calc (m : ℝ) * 2 ^ e < 2 ^ (m.log2 + 1) * 2 ^ e := by gcongr
      _ = 2 ^ (m.log2 + 1 + e : Int) := by rw [← zpow_natCast, ← zpow_add₀ two_ne_zero]; rfl
      _ ≤ 2 ^ (53 + max (m.log2 + e - 52) (-1074) : Int) :=
          zpow_le_zpow_right₀ one_le_two (by omega)
      _ = 2 ^ 53 * 2 ^ max (m.log2 + e - 52) (-1074) := zpow_add₀ two_ne_zero 53 _
  · rcases le_total (m.log2 + e - 52) (-1074) with h | h
    · exact .inl (max_eq_right h)
    · refine .inr ?_
      rw [max_eq_left h]
      calc (2 : ℝ) ^ 52 * 2 ^ (m.log2 + e - 52) = 2 ^ (52 + (m.log2 + e - 52) : Int) :=
            (zpow_add₀ two_ne_zero 52 _).symm
        _ = 2 ^ m.log2 * 2 ^ e := by
            rw [← zpow_natCast, ← zpow_add₀ two_ne_zero]
            congr 1
            omega
        _ ≤ m * 2 ^ e := by gcongr

/-- A rounded mantissa is moved only after a carry. -/
theorem shiftToTargetExponent_rounded {n : Nat} {t : Int} (hn : n ≤ 2 ^ 53) (ht : -1074 ≤ t) :
    shiftToTargetExponent Format.binary64 n t .exact =
      if n = 2 ^ 53 then (⟨2 ^ 52, false, false⟩, t + 1) else (⟨n, false, false⟩, t) := by
  rw [shiftToTargetExponent, targetExponent_eq, shiftToExponent]
  split
  case isTrue h =>
    subst h
    have hone : (max (((2 ^ 53 : Nat).log2 : Int) + t - 52) (-1074) - t).toNat = 1 := by
      rw [Nat.log2_two_pow]
      omega
    rw [hone]
    rfl
  case isFalse h =>
    have hlog := (log2_lt_iff (m := n) (n := 53) (by omega)).mpr (by omega)
    have hzero : (max ((n.log2 : Int) + t - 52) (-1074) - t).toNat = 0 := by omega
    rw [hzero]
    exact Prod.ext rfl (by simp)

theorem holds_rounded {n : Nat} {t : Int} (hn : n ≤ 2 ^ 53) (ht : -1074 ≤ t)
    (hnormal : t = -1074 ∨ 2 ^ 52 ≤ n) :
    let shifted := shiftToTargetExponent Format.binary64 n t .exact
    Holds (if h : shifted.1.mantissa = 0 then .zero s
      else .finite s shifted.1.mantissa shifted.2 (Nat.pos_of_ne_zero h)) s (n * 2 ^ t) := by
  intro shifted
  have hshifted : shifted = _ := shiftToTargetExponent_rounded hn ht
  clear_value shifted
  split at hshifted
  case isTrue hcarry =>
    subst hshifted hcarry
    refine .inr ⟨2 ^ 52, t + 1, by decide, rfl, ?_, by decide, by omega, .inr le_rfl⟩
    push_cast
    rw [zpow_add_one₀ two_ne_zero]
    ring
  case isFalse hcarry =>
    subst hshifted
    by_cases hzero : n = 0
    · subst hzero
      exact .inl ⟨rfl, by simp⟩
    · exact .inr ⟨n, t, Nat.pos_of_ne_zero hzero, dif_neg hzero, rfl, by omega, ht, hnormal⟩

/-- Rounding a mantissa to a target exponent that is no less than its own. -/
theorem roundWithAccuracy_spec (hm : 0 < m) (he : e ≤ max (m.log2 + e - 52) (-1074)) :
    ∃ n t, Rounds (m * 2 ^ e) n t ∧
      Holds (roundWithAccuracy Format.binary64 s m e .exact) s (n * 2 ^ t) := by
  obtain ⟨hlt, hnormal⟩ := mantissa_bounds (e := e) hm
  set t := max (m.log2 + e - 52) (-1074) with ht
  set em := ExtendedMantissa.mk m false false >>> (t - e).toNat with hem
  have hstands : Stands (m * 2 ^ e / 2 ^ t) em := by
    have hpow : (2 : ℝ) ^ t = 2 ^ e * 2 ^ (t - e).toNat := by
      rw [← zpow_natCast, ← zpow_add₀ two_ne_zero]
      congr 1
      omega
    have hdiv : (m : ℝ) * 2 ^ e / 2 ^ t = m / 2 ^ (t - e).toNat := by
      rw [hpow]
      field_simp
    exact hdiv ▸ (Stands.natCast m).shiftRight _
  have hrounds : Rounds (m * 2 ^ e) em.roundedMantissa t :=
    ⟨le_max_right _ _, hlt, hnormal, em, hstands, rfl⟩
  refine ⟨_, t, hrounds, ?_⟩
  have hshift : shiftToTargetExponent Format.binary64 m e .exact = (em, t) := by
    rw [shiftToTargetExponent, targetExponent_eq, shiftToExponent]
    exact Prod.ext rfl (by simp only; omega)
  have hn : em.roundedMantissa ≤ 2 ^ 53 := hrounds.le_of_le (by exact_mod_cast hlt.le)
  simp only [roundWithAccuracy, hshift]
  exact holds_rounded hn hrounds.least
    (hnormal.imp_right fun h => hrounds.le_of_ge (by exact_mod_cast h))

theorem round_spec (hm : 0 < m) : ∃ n t, Rounds (m * 2 ^ e) n t ∧
    Holds (UnpackedFloat.round Format.binary64 s m e) s (n * 2 ^ t) := by
  rw [UnpackedFloat.round, targetExponent_eq, decreaseExponent]
  set k := (e - max (m.log2 + e - 52) (-1074)).toNat with hk
  have hpos : 0 < m <<< k := by
    rw [Nat.shiftLeft_eq]
    positivity
  have hexact : ((m <<< k : Nat) : ℝ) * 2 ^ (e - k) = m * 2 ^ e := by
    rw [Nat.shiftLeft_eq, zpow_sub₀ two_ne_zero, zpow_natCast]
    push_cast
    field_simp
  rw [← hexact]
  refine roundWithAccuracy_spec hpos ?_
  rw [log2_shiftLeft hm.ne']
  omega

end

/-! ## The outcome of storing -/

theorem unpack_pack_finite_of_fits {s : Sign} {m : Nat} {e : Int} (hm : 0 < m) (hhigh : m < 2 ^ 53)
    (he : -1074 ≤ e) (hnormal : e = -1074 ∨ 2 ^ 52 ≤ m) (he' : e ≤ 971) :
    unpack Format.binary64 (pack Format.binary64 (.finite s m e hm)) = .finite s m e hm := by
  rcases Nat.lt_or_ge m (2 ^ 52) with hlow | hlow
  · obtain rfl := hnormal.resolve_right (Nat.not_le.mpr hlow)
    have hlog : m.log2 + 1 ≠ Format.binary64.mantissaBits := by
      have := (log2_lt_iff (m := m) (n := 52) (by omega)).mpr hlow
      simp only [Format.mantissaBits]
      omega
    have hbits : (BitVec.ofNat 52 m).toNat = m := by
      rw [BitVec.toNat_ofNat]
      omega
    have hne : BitVec.ofNat 52 m ≠ 0#52 := by
      intro h
      rw [h] at hbits
      exact hm.ne hbits
    have hpack : pack Format.binary64 (.finite s m (-1074) hm) =
        packComponents Format.binary64 s 0#11 (BitVec.ofNat 52 m) := by
      simp only [pack]
      rw [if_neg (by decide), if_neg hlog]
    rw [hpack]
    simp only [unpack, unpackMantissa_packComponents, unpackExponent_packComponents,
      unpackSign_packComponents, Sign.ofBitVec_toBitVec]
    rw [if_neg (by decide), if_pos trivial, dif_neg hne]
    exact (UnpackedFloat.finite.injEq ..).mpr ⟨rfl, hbits, rfl⟩
  · exact unpack_pack_finite hlow hhigh he he' hm

theorem pack_finite_of_gt {s : Sign} {m : Nat} {e : Int} (hm : 0 < m) (he : 971 < e) :
    pack Format.binary64 (.finite s m e hm) = pack Format.binary64 (.infinity s) := by
  have hbias : (Format.binary64.exponentBias : Int) = 1023 := rfl
  simp only [pack, hbias]
  rw [if_pos (by omega)]

theorem lt_overflow {m : Nat} {e : Int} (hhigh : m < 2 ^ 53) (he : e ≤ 971) :
    (m : ℝ) * 2 ^ e < 2 ^ 1024 := by
  have hhigh : (m : ℝ) < 2 ^ 53 := by exact_mod_cast hhigh
  calc (m : ℝ) * 2 ^ e < 2 ^ 53 * 2 ^ e := by gcongr
    _ ≤ 2 ^ 53 * 2 ^ (971 : Int) := by gcongr; exact one_le_two
    _ = 2 ^ 1024 := by rw [← zpow_natCast, ← zpow_add₀ two_ne_zero]; exact zpow_natCast 2 1024

/-- A number is stored as it is, unless it is `2 ^ 1024` or more. -/
theorem Holds.unpack_pack {x : UnpackedFloat} {s : Sign} {t : ℝ} (h : Holds x s t) :
    unpack Format.binary64 (pack Format.binary64 x) = if t < 2 ^ 1024 then x else .infinity s := by
  rcases h with ⟨rfl, rfl⟩ | ⟨m, e, hm, rfl, rfl, hhigh, he, hnormal⟩
  · rw [if_pos (by positivity), unpack_pack_zero]
  · rw [Nat.cast_ofNat]
    rcases le_or_gt e 971 with he' | he'
    · rw [if_pos (lt_overflow hhigh he'), unpack_pack_finite_of_fits hm hhigh he hnormal he']
    · have hlow : (2 : ℝ) ^ 52 ≤ m := by exact_mod_cast hnormal.resolve_left (by omega)
      have hle : (2 : ℝ) ^ 1024 ≤ m * 2 ^ e :=
        calc (2 : ℝ) ^ 1024 = 2 ^ 52 * 2 ^ (972 : Int) := by
              rw [← zpow_natCast 2 52, ← zpow_add₀ two_ne_zero]; exact (zpow_natCast 2 1024).symm
          _ ≤ 2 ^ 52 * 2 ^ e := by gcongr <;> first | exact one_le_two | omega
          _ ≤ m * 2 ^ e := by gcongr
      rw [if_neg (not_lt.mpr hle), pack_finite_of_gt hm he', unpack_pack_infinity]

end Linkage.Double
