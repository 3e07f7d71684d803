import Linkage.Proofs.Estimation.Persistence
import Linkage.Proofs.Estimation.Trace
import Linkage.Proofs.Random.Simplex

/-
# Log-likelihoods that compare

With exact numbers the logarithm of a weight is a number or the lower end, and so are its products with
counts and shares that are positive.  A factor of 0 is left out wherever it could meet the lower end.
So the log-likelihood of an estimate is a number or the lower end too, and of two such one is the
greater or they are equal.
-/

namespace Linkage

open Extended (number top)

namespace Problem

variable {p : Problem ℝ} {s u : Estimate ℝ}

theorem logLikelihoodIn_lt_top {prior : ℝ} {rows : List (List ℝ)} (hprior : 0 ≤ prior)
    (hrows : ∀ row ∈ rows, ∀ w ∈ row, 0 ≤ w) (x : Pattern) :
    logLikelihoodIn (number prior) (extendRows rows) x < top := by
  rw [logLikelihoodIn, extendRows, List.zip_map_left, List.foldl_map]
  refine List.foldlRecOn (motive := (· < top)) _ _ (Extended.log_lt_top hprior) ?_
  intro sum hsum y hy
  refine Extended.add_lt_top hsum ?_
  simp only [id, getD_map_number]
  exact Extended.log_lt_top (getD_nonneg (hrows y.1 (List.of_mem_zip hy).1) y.2)

theorem zip_extend (s : Estimate ℝ) : s.extend.priors.zip s.extend.weights =
    (s.priors.zip s.weights).map (Prod.map number extendRows) :=
  List.zip_map ..

theorem labeledLogLikelihood_lt_top (hp : p.Sound) (hs : s.Shaped p) :
    p.extend.labeledLogLikelihood s.extend < top := by
  rw [labeledLogLikelihood, zip_extend, List.zip_map_right, List.foldl_map]
  refine List.foldlRecOn (motive := (· < top)) _ _ trivial ?_
  rintro sum hsum ⟨entries, prior, rows⟩ hmem
  obtain ⟨hentries, hclass⟩ := List.of_mem_zip hmem
  obtain ⟨hprior, hrows⟩ := List.of_mem_zip hclass
  refine List.foldlRecOn (motive := (· < top)) _ _ hsum ?_
  intro sum hsum e he
  refine Extended.add_lt_top hsum (Extended.number_mul_lt_top ?_ ?_)
  · exact Nat.cast_pos.mpr (hp.labeled entries hentries e he).2
  · exact logLikelihoodIn_lt_top (hs.priors_nonneg prior hprior) (hs.rows_nonneg rows hrows) _

theorem expectedLogLikelihood_lt_top (hs : s.Shaped p) {shares : List ℝ}
    (hshares : ∀ w ∈ shares, 0 ≤ w) (x : Pattern) :
    expectedLogLikelihood s.extend x (shares.map number) < top := by
  rw [expectedLogLikelihood, zip_extend, List.zip_map, List.foldl_map]
  refine List.foldlRecOn (motive := (· < top)) _ _ trivial ?_
  rintro sum hsum ⟨share, prior, rows⟩ hmem
  obtain ⟨hshare, hclass⟩ := List.of_mem_zip hmem
  obtain ⟨hprior, hrows⟩ := List.of_mem_zip hclass
  simp only [Prod.map]
  split
  case isTrue => exact hsum
  case isFalse hne =>
    -- A class without share is left out, so that its likelihood may be 0.
    have hpos : 0 < share := (hshares share hshare).lt_of_ne' fun hzero =>
      hne (by rw [hzero]; exact beq_real_iff_eq.mpr rfl)
    refine Extended.add_lt_top hsum (Extended.number_mul_lt_top hpos ?_)
    exact logLikelihoodIn_lt_top (hs.priors_nonneg prior hprior) (hs.rows_nonneg rows hrows) _

theorem unlabeledLogLikelihood_lt_top (hp : p.Sound) (hs : s.Shaped p) :
    p.extend.unlabeledLogLikelihood s.extend < top := by
  have hzip : p.extend.unlabeled.zip s.extend.shares =
      (p.unlabeled.zip s.shares).map (Prod.map id (·.map number)) :=
    List.zip_map_right ..
  rw [unlabeledLogLikelihood, hzip, List.foldl_map]
  refine List.foldlRecOn (motive := (· < top)) _ _ trivial ?_
  rintro sum hsum ⟨e, shares⟩ hmem
  obtain ⟨he, hshares⟩ := List.of_mem_zip hmem
  refine Extended.add_lt_top hsum (Extended.number_mul_lt_top ?_ ?_)
  · exact Nat.cast_pos.mpr (hp.unlabeled e he).2
  · exact expectedLogLikelihood_lt_top hs (hs.shares_nonneg shares hshares) _

theorem logLikelihood_lt_top (hp : p.Sound) (hs : s.Shaped p) :
    p.extend.logLikelihood s.extend < top := by
  have hblend : ∀ {c : ℝ} {x : Extended}, 0 ≤ c → (0 < c → x < top) →
      number c * (if 0 < c then x else 0) < top := by
    intro c x hc hx
    rcases hc.eq_or_lt with rfl | hpos
    · rw [if_neg (lt_irrefl 0)]
      exact trivial
    · rw [if_pos hpos]
      exact Extended.number_mul_lt_top hpos (hx hpos)
  have hrest : p.extend.lambda < 1 ↔ 0 < 1 - p.lambda :=
    (Extended.number_lt_one p.lambda).trans sub_pos.symm
  have hfactor : 1 - p.extend.lambda = number (1 - p.lambda) := Extended.one_sub_number p.lambda
  rw [logLikelihood, if_congr hrest rfl rfl, hfactor]
  refine Extended.add_lt_top ?_ ?_
  · exact hblend hp.lambda_nonneg fun _ => labeledLogLikelihood_lt_top hp hs
  · exact hblend (sub_nonneg.mpr hp.lambda_le_one) fun _ => unlabeledLogLikelihood_lt_top hp hs

theorem Steps.shaped {n : Nat} (hp : p.Sound) (h : p.Steps n s u) (hs : s.Shaped p) :
    u.Shaped p := by
  induction h with
  | refl => exact hs
  | cons hstep _ ih =>
      obtain ⟨w, hexpect, hmaximize⟩ := step_eq_ok_iff.mp hstep
      obtain ⟨-, rfl⟩ := maximize_eq_ok_iff.mp hmaximize
      exact ih (shaped_maximum hp (shaped_expect hs hexpect))

theorem steps_after {α : Type} [Arithmetic α] {p : Problem α} {s : Estimate α} {n : Nat}
    (h : ∀ i < n, p.step (p.after s i) = .ok (p.after s (i + 1))) : p.Steps n s (p.after s n) := by
  induction n with
  | zero => exact .refl s
  | succ n ih => exact (ih fun i hi => h i (Nat.lt_succ_of_lt hi)).snoc (h n (Nat.lt_succ_self n))

section Draws

variable {γ : Type} [Draws γ Extended] {r : StopRule} {g : γ}

theorem logLikelihood_run_lt_top (hdraws : Simplex.UnitDraws γ) (hp : p.Sound)
    {solution : Solution Extended} (h : (p.extend.run r g).1.result = .ok solution) :
    solution.report.logLikelihood < top := by
  obtain ⟨s, hstart, hs⟩ := exists_start_shaped hdraws p g
  have htold := told_of_run h
  rw [hstart] at htold
  obtain ⟨v, hv, hsteps⟩ := (steps_after htold.steps).of_extend
  rw [htold.logLikelihood, hv]
  exact logLikelihood_lt_top hp (hsteps.shaped hp hs)

end Draws

end Problem

end Linkage
