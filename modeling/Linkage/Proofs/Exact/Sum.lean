import Linkage.Proofs.Exact.Extended

/-
# Sums of extended numbers

Addition of extended numbers has the laws of a commutative monoid with opposites: what is undefined
absorbs all else, opposite ends are undefined together, and an end absorbs numbers.  So the sum of a
list does not depend on its order, and where there is no upper end a lower end decides it.
-/

namespace Linkage.Extended

/-- Only numbers cancel: an end and its opposite have no sum. -/
noncomputable instance : SubtractionCommMonoid Extended where
  add_assoc x y z := by
    cases x <;> cases y <;> cases z
    case number.number.number x y z => exact congrArg number (by ring)
    all_goals rfl
  add_comm x y := by
    cases x <;> cases y
    case number.number x y => exact congrArg number (by ring)
    all_goals rfl
  zero_add x := by
    cases x
    case number x => exact congrArg number (by ring)
    all_goals rfl
  add_zero x := by
    cases x
    case number x => exact congrArg number (by ring)
    all_goals rfl
  neg_neg x := by
    cases x
    case number x => exact congrArg number (by ring)
    all_goals rfl
  neg_add_rev x y := by
    cases x <;> cases y
    case number.number x y => exact congrArg number (by ring)
    all_goals rfl
  neg_eq_of_add x y h := by
    cases x <;> cases y
    case number.number x y => exact congrArg number (neg_eq_of_add_eq_zero_right (number.inj h))
    all_goals cases h
  sub_eq_add_neg x y := rfl
  nsmul := nsmulRec
  zsmul := zsmulRec

variable {xs ys : List Extended}

theorem sum_eq_sum (xs : List Extended) : Arithmetic.sum xs = xs.sum := by
  rw [Arithmetic.sum, neg_zero, List.sum_eq_foldl]

theorem sum_perm (h : xs.Perm ys) : Arithmetic.sum xs = Arithmetic.sum ys := by
  rw [sum_eq_sum, sum_eq_sum, h.sum_eq]

/-- Without an upper end, a lower end outweighs all numbers. -/
theorem sum_eq_bottom (htop : ∀ x ∈ xs, x < top) (hbottom : bottom ∈ xs) :
    Arithmetic.sum xs = bottom := by
  have habsorbs : ∀ {x : Extended}, x < top → bottom + x = bottom := by
    intro x hx
    cases x <;> first | rfl | exact hx.elim
  obtain ⟨before, after, rfl⟩ := List.append_of_mem hbottom
  have hothers : Arithmetic.sum (before ++ after) < top := sum_lt_top fun x hx => htop x (by
    rw [List.mem_append, List.mem_cons]
    exact (List.mem_append.mp hx).imp_right .inr)
  rw [sum_perm List.perm_middle, sum_eq_sum, List.sum_cons, ← sum_eq_sum]
  exact habsorbs hothers

end Linkage.Extended
