import Linkage.Proofs.Exact.Storing

/-
# Doubles on a grid

All multiples of `2 ^ -53` from 0 to 1 are doubles.  A difference of two of them that is not
negative is one again, and so is a sum that is not above 1.  So nothing is rounded as long as a
computation subtracts and adds them and stays between 0 and 1.
-/

namespace Linkage.Double

open Extended (number ofFloat)

/-! ## The values of doubles -/

/-- The number that a double stands for.  What is not a number counts as 0. -/
noncomputable def value (x : Float) : ℝ :=
  Arithmetic.ofFloat x

theorem value_eq {x : Float} {a : ℝ} (h : ofFloat x = number a) : value x = a := by
  rw [ofFloat] at h
  simp only [value, Arithmetic.ofFloat]
  split at h
  case h_1 hview => rw [hview]; exact Extended.number.inj h
  case h_2 hview => rw [hview]; exact Extended.number.inj h
  all_goals cases h

theorem ofFloat_eq_value {x : Float} (hx : x.isFinite = true) : ofFloat x = number (value x) := by
  obtain ⟨a, ha⟩ := Extended.ofFloat_eq_number_iff.mpr hx
  rw [value_eq ha, ha]

theorem map_value_eq {xs : List Float} {as : List ℝ} (h : xs.map ofFloat = as.map number) :
    xs.map value = as := by
  induction xs generalizing as with
  | nil => exact (List.map_eq_nil_iff.mp h.symm).symm
  | cons x xs ih =>
      obtain ⟨a, as, rfl, hx, hxs⟩ := List.map_eq_cons_iff.mp h.symm
      rw [List.map_cons, value_eq hx.symm, ih hxs.symm]

section

variable {x y : Float} (hx : x.isFinite = true) (hy : y.isFinite = true)
include hx hy

theorem le_iff_value_le : x ≤ y ↔ value x ≤ value y := by
  rw [Extended.le_iff_ofFloat_le, ofFloat_eq_value hx, ofFloat_eq_value hy,
    Extended.number_le_number]

theorem lt_iff_value_lt : x < y ↔ value x < value y := by
  rw [Extended.lt_iff_ofFloat_lt, ofFloat_eq_value hx, ofFloat_eq_value hy,
    Extended.number_lt_number]

end

/-! ## The grid -/

/-- A multiple of `2 ^ -53` between 0 and 1. -/
def OnGrid (a : ℝ) : Prop :=
  ∃ k : ℕ, k ≤ 2 ^ 53 ∧ a = k / (2 ^ 53 : ℕ)

namespace OnGrid

variable {a b : ℝ}

theorem zero : OnGrid 0 :=
  ⟨0, Nat.zero_le _, by simp⟩

theorem one : OnGrid 1 :=
  ⟨2 ^ 53, le_rfl, by norm_num⟩

theorem nonneg (ha : OnGrid a) : 0 ≤ a := by
  obtain ⟨k, -, rfl⟩ := ha
  positivity

theorem le_one (ha : OnGrid a) : a ≤ 1 := by
  obtain ⟨k, hk, rfl⟩ := ha
  rw [div_le_one (by positivity)]
  exact_mod_cast hk

theorem sub (ha : OnGrid a) (hb : OnGrid b) (hle : b ≤ a) : OnGrid (a - b) := by
  obtain ⟨k, hk, rfl⟩ := ha
  obtain ⟨l, -, rfl⟩ := hb
  have hlk : l ≤ k := by
    rw [div_le_div_iff_of_pos_right (by positivity)] at hle
    exact_mod_cast hle
  refine ⟨k - l, (Nat.sub_le k l).trans hk, ?_⟩
  rw [Nat.cast_sub hlk, sub_div]

theorem add (ha : OnGrid a) (hb : OnGrid b) (hle : a + b ≤ 1) : OnGrid (a + b) := by
  obtain ⟨k, -, rfl⟩ := ha
  obtain ⟨l, -, rfl⟩ := hb
  rw [← add_div, div_le_one (by positivity)] at hle
  refine ⟨k + l, by exact_mod_cast hle, ?_⟩
  rw [Nat.cast_add, add_div]

/-- Every number on the grid is a double. -/
theorem exists_ofFloat_eq (ha : OnGrid a) : ∃ x : Float, ofFloat x = number a := by
  obtain ⟨k, hk, rfl⟩ := ha
  rcases hk.lt_or_eq with hlt | rfl
  · have hw : k.toUInt64.toNat = k := by
      rw [Nat.toUInt64, UInt64.toNat_ofNat']
      omega
    have hpart := ofFloat_part (hw.trans_lt hlt)
    rw [hw] at hpart
    exact ⟨_, hpart⟩
  · exact ⟨1, ofFloat_one.trans (by norm_num)⟩

end OnGrid

/-! ## Differences and sums -/

variable {x y : Float} {a b : ℝ}

theorem ofFloat_sub_of_onGrid (hx : ofFloat x = number a) (hy : ofFloat y = number b)
    (h : OnGrid (a - b)) : ofFloat (x - y) = number (a - b) := by
  obtain ⟨z, hz⟩ := h.exists_ofFloat_eq
  have hstored := storedAs_sub x y
  rw [hx, hy, Extended.number_sub, ← hz] at hstored
  exact (hstored.unique (storedAs_ofFloat z)).trans hz

theorem ofFloat_add_of_onGrid (hx : ofFloat x = number a) (hy : ofFloat y = number b)
    (h : OnGrid (a + b)) : ofFloat (x + y) = number (a + b) := by
  obtain ⟨z, hz⟩ := h.exists_ofFloat_eq
  have hstored := storedAs_add x y
  rw [hx, hy, Extended.number_add, ← hz] at hstored
  exact (hstored.unique (storedAs_ofFloat z)).trans hz

/-- A sum that stays on the grid.  As no summand is negative, it does if it is not above 1 in the
end. -/
theorem ofFloat_foldl_of_onGrid {xs : List Float} {as : List ℝ} (hx : ofFloat x = number a)
    (hxs : xs.map ofFloat = as.map number) (ha : OnGrid a) (has : ∀ b ∈ as, OnGrid b)
    (hle : a + as.sum ≤ 1) : ofFloat (xs.foldl (· + ·) x) = number (a + as.sum) := by
  induction xs generalizing x a as with
  | nil =>
      obtain rfl : as = [] := List.map_eq_nil_iff.mp hxs.symm
      rw [List.foldl_nil, List.sum_nil, add_zero, hx]
  | cons y xs ih =>
      obtain ⟨b, bs, rfl, hy, hrest⟩ := List.map_eq_cons_iff.mp hxs.symm
      have hb : OnGrid b := has b List.mem_cons_self
      have hbs : ∀ c ∈ bs, OnGrid c := fun c hc => has c (List.mem_cons_of_mem b hc)
      have hrestNonneg : 0 ≤ bs.sum := List.sum_nonneg fun c hc => (hbs c hc).nonneg
      rw [List.sum_cons, ← add_assoc] at hle
      have hsum : OnGrid (a + b) := ha.add hb (by linarith)
      rw [List.foldl_cons, List.sum_cons, ← add_assoc]
      exact ih (ofFloat_add_of_onGrid hx hy.symm hsum) hrest.symm hsum hbs hle

/-- Doubles on the grid are summed without rounding if their sum is not above 1. -/
theorem ofFloat_sum_of_onGrid {xs : List Float} {as : List ℝ}
    (hxs : xs.map ofFloat = as.map number) (has : ∀ b ∈ as, OnGrid b) (hle : as.sum ≤ 1) :
    ofFloat (Arithmetic.sum xs) = number as.sum := by
  have hstart : ofFloat (-0) = number 0 := rfl
  have hsum := ofFloat_foldl_of_onGrid hstart hxs .zero has (by rwa [zero_add])
  rwa [zero_add] at hsum

end Linkage.Double
