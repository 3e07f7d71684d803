import Linkage.Proofs.Estimation.Likelihood
import Linkage.Proofs.Estimation.Run

/-
# Estimates without their shares

The parameters of an estimate are its priors and its weights.  A step makes the shares that it needs,
and without unlabeled counts it needs none.  So other shares lead to the same parameters, and what is
true of a step from some shares is true of it from any.
-/

namespace Linkage

def Estimate.withShares {α : Type} (s : Estimate α) (shares : List (List α)) : Estimate α :=
  { s with shares := shares }

/-- Shares that are the same for every class. -/
noncomputable def Problem.evenShares (p : Problem ℝ) : List (List ℝ) :=
  p.unlabeled.map fun _ => List.replicate p.classes (1 / (p.classes : ℝ))

namespace Estimate

variable {p : Problem ℝ} {s : Estimate ℝ}

/-- Parameters of the right shape for a problem, without negative numbers. -/
structure Nonneg (p : Problem ℝ) (s : Estimate ℝ) : Prop where
  priors : s.priors.length = p.classes
  priors_nonneg : ∀ w ∈ s.priors, 0 ≤ w
  weights : s.weights.length = p.classes
  rows : ∀ rows ∈ s.weights, RowsFit p.levels rows
  rows_nonneg : ∀ rows ∈ s.weights, ∀ row ∈ rows, ∀ w ∈ row, 0 ≤ w

/-- Parameters that are probability vectors. -/
structure Distributed (p : Problem ℝ) (s : Estimate ℝ) : Prop extends Nonneg p s where
  priors_sum : s.priors.sum = 1
  rows_sum : ∀ rows ∈ s.weights, ∀ row ∈ rows, row.sum = 1

theorem Shaped.nonneg (h : s.Shaped p) : s.Nonneg p where
  priors := h.priors
  priors_nonneg := h.priors_nonneg
  weights := h.weights
  rows := h.rows
  rows_nonneg := h.rows_nonneg

theorem Stochastic.distributed (h : s.Stochastic p) : s.Distributed p where
  toNonneg := h.toShaped.nonneg
  priors_sum := h.priors_sum
  rows_sum := h.rows_sum

theorem Nonneg.shaped (h : s.Nonneg p) : (s.withShares p.evenShares).Shaped p where
  priors := h.priors
  priors_nonneg := h.priors_nonneg
  weights := h.weights
  rows := h.rows
  rows_nonneg := h.rows_nonneg
  shares := List.length_map ..
  shares_row := by
    intro row hrow
    obtain ⟨e, -, rfl⟩ := List.mem_map.mp hrow
    exact List.length_replicate
  shares_nonneg := by
    intro row hrow w hw
    obtain ⟨e, -, rfl⟩ := List.mem_map.mp hrow
    rw [List.eq_of_mem_replicate hw]
    positivity

theorem evenShares_sum (hclasses : 0 < p.classes) : ∀ row ∈ p.evenShares, row.sum = 1 := by
  intro row hrow
  obtain ⟨e, -, rfl⟩ := List.mem_map.mp hrow
  have hne : (p.classes : ℝ) ≠ 0 := Nat.cast_ne_zero.mpr hclasses.ne'
  rw [List.sum_replicate, nsmul_eq_mul, mul_one_div_cancel hne]

theorem Distributed.classes_pos (h : s.Distributed p) : 0 < p.classes := by
  refine Nat.pos_of_ne_zero ?_
  intro hclasses
  have hsum := h.priors_sum
  rw [List.eq_nil_of_length_eq_zero (h.priors.trans hclasses)] at hsum
  simp at hsum

theorem Distributed.stochastic (h : s.Distributed p) :
    (s.withShares p.evenShares).Stochastic p where
  toShaped := h.shaped
  priors_sum := h.priors_sum
  rows_sum := h.rows_sum
  shares_sum := evenShares_sum h.classes_pos

end Estimate

namespace Problem

section Arithmetic

variable {α : Type} [Arithmetic α] {p : Problem α} {s u : Estimate α}

theorem expect_of_not_lt (hlambda : ¬ p.lambda < 1) : p.expect s = .ok s := by
  rw [expect, if_neg hlambda]

theorem expect_withShares (hlambda : p.lambda < 1) (shares : List (List α)) :
    p.expect (s.withShares shares) = p.expect s := by
  rw [expect, expect, if_pos hlambda, if_pos hlambda]
  rfl

theorem mass_of_not_lt (hlambda : ¬ p.lambda < 1) (cls : Nat) : p.mass s cls = p.labeledMass cls := by
  rw [mass, unlabeledMass, if_neg hlambda, List.append_nil]

theorem maximize_of_not_lt (hlambda : ¬ p.lambda < 1) (s u : Estimate α) :
    p.maximize s = (p.maximize u).map (·.withShares s.shares) := by
  simp only [maximize_eq, maximum, mass_of_not_lt hlambda]
  cases checkMass ((List.range p.classes).map fun cls => Mass.total (p.labeledMass cls)) <;> rfl

/-- Other shares lead to the same parameters. -/
theorem step_withShares (p : Problem α) (s : Estimate α) (shares : List (List α)) :
    ∃ shares', p.step (s.withShares shares) = (p.step s).map (·.withShares shares') := by
  by_cases hlambda : p.lambda < 1
  · have hsame : p.step (s.withShares shares) = p.step s := by
      rw [step, step, expect_withShares hlambda]
    cases hstep : p.step s with
    | error e => exact ⟨[], hsame.trans hstep⟩
    | ok w => exact ⟨w.shares, hsame.trans hstep⟩
  · refine ⟨shares, ?_⟩
    rw [step, step, expect_of_not_lt hlambda, expect_of_not_lt hlambda]
    exact maximize_of_not_lt hlambda (s.withShares shares) s

theorem step_withShares_ok {w : Estimate α} (h : p.step s = .ok w) (shares : List (List α)) :
    ∃ shares', p.step (s.withShares shares) = .ok (w.withShares shares') := by
  obtain ⟨shares', hstep⟩ := step_withShares p s shares
  exact ⟨shares', by rw [hstep, h]; rfl⟩

theorem Steps.withShares {n : Nat} (h : p.Steps n s u) (shares : List (List α)) :
    ∃ shares', p.Steps n (s.withShares shares) (u.withShares shares') := by
  induction h generalizing shares with
  | refl => exact ⟨shares, .refl _⟩
  | cons hstep _ ih =>
      obtain ⟨shares', hstep'⟩ := step_withShares_ok hstep shares
      obtain ⟨shares'', hsteps⟩ := ih shares'
      exact ⟨shares'', .cons hstep' hsteps⟩

end Arithmetic

end Problem

end Linkage
