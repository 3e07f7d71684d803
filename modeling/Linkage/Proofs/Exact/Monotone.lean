import Linkage.Proofs.Exact.Storing

/-
# Sums and products of doubles keep the order

What is less stays so, or becomes equal, when the same double is added to both sides or subtracted
from them, or when both are multiplied by one that is positive; and subtracting from the same double
turns the order around.  So a bound at one double is a bound at all that lie on one side of it.
-/

namespace Linkage.Double

open Extended

variable {x y c : Float}

/-- A number has a distance from zero that exceeds a positive one if it lies beyond it on either
side. -/
theorem lt_abs_iff {t : Float} (ht : 0 < t) (hfinite : t.isFinite = true) :
    t < Arithmetic.abs x ↔ t < x ∨ x < -t := by
  obtain ⟨t', hpos, ht'⟩ := exists_ofFloat_eq_of_pos hfinite ht
  have hside : ofFloat (-t) = number (-t') := by rw [ofFloat_neg, ht']; rfl
  have hneg : x < 0 ↔ ofFloat x < number 0 := lt_iff_ofFloat_lt
  rw [Arithmetic.abs]
  split
  case isTrue h =>
    have h := hneg.mp h
    rw [lt_iff_ofFloat_lt, lt_iff_ofFloat_lt, lt_iff_ofFloat_lt, ofFloat_neg, ht', hside]
    cases hx : ofFloat x with
    | number a =>
        rw [hx, number_lt_number] at h
        change t' < -a ↔ t' < a ∨ a < -t'
        constructor
        · intro hlt
          exact .inr (lt_neg.mp hlt)
        · rintro (hlt | hlt) <;> linarith
    | bottom => exact iff_of_true trivial (.inr trivial)
    | top => rw [hx] at h; exact h.elim
    | undefined => rw [hx] at h; exact h.elim
  case isFalse h =>
    have h := hneg.not.mp h
    rw [lt_iff_ofFloat_lt, lt_iff_ofFloat_lt, ht', hside]
    cases hx : ofFloat x with
    | number a =>
        rw [hx, number_lt_number] at h
        change t' < a ↔ t' < a ∨ a < -t'
        constructor
        · exact .inl
        · rintro (hlt | hlt) <;> linarith
    | bottom => rw [hx] at h; exact (h trivial).elim
    | top => exact iff_of_true trivial (.inl trivial)
    | undefined => exact iff_of_false id (not_or.mpr ⟨id, id⟩)

theorem isNaN_sub (hx : x.isNaN = true) : (x - c).isNaN = true := by
  by_contra hnot
  have hdefined := ofFloat_ne_undefined_iff.mpr (Bool.eq_false_of_not_eq_true hnot)
  have hstored := storedAs_sub x c
  have hundefined : ofFloat x = undefined := by
    by_contra hne
    have hnot := ofFloat_ne_undefined_iff.mp hne
    rw [hx] at hnot
    cases hnot
  rw [hundefined] at hstored
  cases hc : ofFloat c <;> rw [hc] at hstored <;> exact hdefined hstored

protected theorem add_le_add_right (h : x ≤ y) (hc : c.isFinite = true) : x + c ≤ y + c := by
  obtain ⟨c', hc'⟩ := ofFloat_eq_number_iff.mpr hc
  have hx := storedAs_add x c
  have hy := storedAs_add y c
  rw [hc'] at hx hy
  exact le_iff_ofFloat_le.mpr (hx.mono hy (add_number_le (le_iff_ofFloat_le.mp h) c'))

protected theorem sub_le_sub_right (h : x ≤ y) (hc : c.isFinite = true) : x - c ≤ y - c := by
  obtain ⟨c', hc'⟩ := ofFloat_eq_number_iff.mpr hc
  have hx := storedAs_sub x c
  have hy := storedAs_sub y c
  rw [hc'] at hx hy
  exact le_iff_ofFloat_le.mpr (hx.mono hy (add_number_le (le_iff_ofFloat_le.mp h) (-c')))

protected theorem sub_le_sub_left (h : x ≤ y) (hc : c.isFinite = true) : c - y ≤ c - x := by
  obtain ⟨c', hc'⟩ := ofFloat_eq_number_iff.mpr hc
  have hx := storedAs_sub c x
  have hy := storedAs_sub c y
  rw [hc'] at hx hy
  have hle := number_add_le (Extended.neg_le_neg (le_iff_ofFloat_le.mp h)) c'
  exact le_iff_ofFloat_le.mpr (hy.mono hx hle)

protected theorem mul_le_mul_left (h : x ≤ y) (hx : x.isFinite = true) (hy : y.isFinite = true)
    (hc : c.isFinite = true) (hpos : 0 < c) : c * x ≤ c * y := by
  obtain ⟨c', hc', hfc⟩ := exists_ofFloat_eq_of_pos hc hpos
  obtain ⟨a, ha⟩ := ofFloat_eq_number_iff.mpr hx
  obtain ⟨b, hb⟩ := ofFloat_eq_number_iff.mpr hy
  have hcx := storedAs_mul hc hx
  have hcy := storedAs_mul hc hy
  rw [hfc, ha] at hcx
  rw [hfc, hb] at hcy
  refine le_iff_ofFloat_le.mpr (hcx.mono hcy (number_le_number.mpr ?_))
  rw [le_iff_ofFloat_le, ha, hb, number_le_number] at h
  gcongr

theorem ofInt_mono {m n : Int} (hm : m.natAbs < 2 ^ 53) (hn : n.natAbs < 2 ^ 53) (h : m ≤ n) :
    Float.ofInt m ≤ Float.ofInt n := by
  rw [le_iff_ofFloat_le, ofFloat_ofInt hm, ofFloat_ofInt hn, number_le_number]
  exact_mod_cast h

theorem ofFloat_sub_congr (h : (x == y) = true) (c : Float) : ofFloat (c - x) = ofFloat (c - y) := by
  have hstored := storedAs_sub c x
  rw [(beq_iff_ofFloat_eq.mp h).1] at hstored
  exact hstored.unique (storedAs_sub c y)

end Linkage.Double
