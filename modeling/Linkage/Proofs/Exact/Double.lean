import Linkage.Proofs.Double.Exact
import Linkage.Proofs.Exact.Extended

/-
# The exact values of doubles

A double that is neither infinite nor undefined stands for a number.  Exact arithmetic meets doubles
in two places: what a generator draws, and the tolerance at which a run stops.
-/

namespace Linkage

open Double
open Float.Model (UnpackedFloat)
open Float.Model.UnpackedFloat (Sign)
open Extended (number)

theorem Extended.ofFloat_eq {x : Float} {s : Sign} {m : Nat} {e : Int} {hm : 0 < m}
    (h : view x = .finite s m e hm) : Extended.ofFloat x = number (binary s m e) := by
  rw [view] at h
  rw [Extended.ofFloat, h]

theorem binary_leading (n : Nat) (e : Int) :
    binary .positive (leading n) (-(52 - n.log2 : Nat) + e) = n * 2 ^ e := by
  have hsign : Sign.positive.apply (leading n) = (leading n : ℤ) := rfl
  rw [binary, hsign, leading, Nat.shiftLeft_eq, zpow_add₀ (by norm_num), zpow_neg, zpow_natCast]
  push_cast
  field_simp

/-- A whole number of parts of which `2 ^ 53` are 1. -/
theorem ofFloat_part {w : UInt64} (hlt : w.toNat < 2 ^ 53) :
    Extended.ofFloat (w.toFloat / 9007199254740992.0) = number (w.toNat / (2 ^ 53 : ℕ)) := by
  by_cases hw : w.toNat = 0
  · obtain rfl : w = 0 := UInt64.toNat_inj.mp hw
    have hview : view ((0 : UInt64).toFloat / 9007199254740992.0) = .zero .positive := rfl
    rw [view] at hview
    rw [Extended.ofFloat, hview]
    simp
  · obtain ⟨hlow, hhigh⟩ := leading_bounds hw hlt
    have hview := view_div hlow hhigh (by omega) (by omega) _ (view_toFloat hw hlt)
    rw [Extended.ofFloat_eq hview, sub_eq_add_neg, binary_leading]
    norm_num [zpow_neg, div_eq_mul_inv]

theorem binary_pos {m : Nat} (hm : 0 < m) (e : Int) : 0 < binary .positive m e := by
  have hsign : Sign.positive.apply m = (m : ℤ) := rfl
  rw [binary, hsign]
  positivity

theorem exists_ofFloat_eq_of_pos {x : Float} (hfinite : x.isFinite = true) (hpos : 0 < x) :
    ∃ y : ℝ, 0 < y ∧ Extended.ofFloat x = number y := by
  have hzero : view 0 = .zero .positive := rfl
  rw [lt_iff, hzero] at hpos
  rw [isFinite_eq, below, above] at hfinite
  cases hx : view x with
  | notANumber => simp [hx, UnpackedFloat.compare] at hpos
  | zero => simp [hx, UnpackedFloat.compare] at hpos
  | infinity s => cases s <;> simp [hx, ends] at hfinite
  | finite s m e hm =>
      cases s with
      | negative => simp [hx, UnpackedFloat.compare] at hpos
      | positive => exact ⟨_, binary_pos hm e, Extended.ofFloat_eq hx⟩

theorem binary_le_one {m : Nat} {e : Int} (hm : m < 2 ^ 53)
    (h : e < -52 ∨ e = -52 ∧ m ≤ 2 ^ 52) : binary .positive m e ≤ 1 := by
  have hsign : Sign.positive.apply m = (m : ℤ) := rfl
  rw [binary, hsign]
  rcases h with he | ⟨rfl, hm⟩
  · have hpow : ((2 : ℕ) : ℝ) ^ e ≤ 2 ^ (-53 : ℤ) := by
      push_cast
      exact zpow_le_zpow_right₀ one_le_two (by omega)
    calc ((m : ℤ) : ℝ) * (2 : ℕ) ^ e ≤ 2 ^ 53 * 2 ^ (-53 : ℤ) := by
          refine mul_le_mul ?_ hpow (by positivity) (by positivity)
          exact_mod_cast hm.le
      _ = 1 := by norm_num
  · have hle : ((m : ℤ) : ℝ) ≤ 2 ^ 52 := by exact_mod_cast hm
    calc ((m : ℤ) : ℝ) * (2 : ℕ) ^ (-52 : ℤ) ≤ 2 ^ 52 * (2 : ℕ) ^ (-52 : ℤ) :=
          mul_le_mul_of_nonneg_right hle (by positivity)
      _ = 1 := by norm_num

theorem exists_ofFloat_eq_of_unit {x : Float} (hlow : 0 ≤ x) (hhigh : x ≤ 1) :
    ∃ y : ℝ, 0 ≤ y ∧ y ≤ 1 ∧ Extended.ofFloat x = number y := by
  have hzero : view 0 = .zero .positive := rfl
  have hone : view 1 = .finite .positive (2 ^ 52) (-52) (by decide) := rfl
  rw [le_iff, hzero] at hlow
  rw [le_iff, hone] at hhigh
  cases hx : view x with
  | notANumber => simp [hx, UnpackedFloat.compare] at hlow
  | zero s =>
      refine ⟨0, le_rfl, zero_le_one, ?_⟩
      rw [view] at hx
      rw [Extended.ofFloat, hx]
  | infinity s =>
      cases s <;> simp [hx, UnpackedFloat.compare, Ordering.isLE] at hlow hhigh
  | finite s m e hm =>
      cases s with
      | negative => simp [hx, UnpackedFloat.compare, Ordering.isLE] at hlow
      | positive =>
          have hshort : m < 2 ^ 53 := by
            have h : Short (view x) := short_unpack _
            rw [hx] at h
            exact h
          refine ⟨_, (binary_pos hm e).le, binary_le_one hshort ?_, Extended.ofFloat_eq hx⟩
          have horder : (compare e (-52)).then (compare m (2 ^ 52)) ≠ .gt := by
            rw [hx] at hhigh
            intro hgt
            change ((compare e (-52)).then (compare m (2 ^ 52))).isLE = true at hhigh
            rw [hgt] at hhigh
            cases hhigh
          rcases lt_trichotomy e (-52) with he | rfl | he
          · exact .inl he
          · refine .inr ⟨rfl, ?_⟩
            by_contra hlt
            exact horder (Nat.compare_eq_gt.mpr (Nat.lt_of_not_le hlt))
          · refine absurd ?_ horder
            rw [Int.compare_eq_gt.mpr he]
            rfl
end Linkage
