import Linkage.Proofs.Estimation.Persistence
import Mathlib.Analysis.SpecialFunctions.Log.ENNRealLog

/-
# The log-likelihood of the observed counts

What was counted is less likely under the parameters before a step than under those after it.  The
logarithm of 0 is below all numbers here, so that parameters which exclude a counted pattern are the
least likely of all.  A step fails on unlabeled patterns that are excluded, and after it no counted
pattern is: only the labeled patterns can be excluded before a step, and only before the first.
-/

namespace Linkage

open Finset

/-! ## Sums below all numbers -/

section Bottom

variable {β : Type}

theorem coe_sum_map (xs : List β) (f : β → ℝ) :
    (xs.map fun x => (f x : EReal)).sum = ((xs.map f).sum : ℝ) := by
  induction xs with
  | nil => rfl
  | cons x xs ih =>
      rw [List.map_cons, List.sum_cons, ih, List.map_cons, List.sum_cons, EReal.coe_add]

theorem coe_sum_range (n : Nat) (f : Nat → ℝ) :
    ∑ i ∈ range n, (f i : EReal) = ((∑ i ∈ range n, f i : ℝ) : EReal) := by
  induction n with
  | zero => rfl
  | succ n ih => rw [sum_range_succ, ih, sum_range_succ, EReal.coe_add]

theorem sum_eq_bot {xs : List EReal} (h : ⊥ ∈ xs) : xs.sum = ⊥ := by
  induction xs with
  | nil => exact absurd h List.not_mem_nil
  | cons x xs ih =>
      rw [List.sum_cons]
      rcases List.mem_cons.mp h with rfl | h
      · exact EReal.bot_add _
      · rw [ih h, EReal.add_bot]

theorem sum_range_eq_bot {n i : Nat} {f : Nat → EReal} (hi : i < n) (h : f i = ⊥) :
    ∑ j ∈ range n, f j = ⊥ := by
  rw [← add_sum_erase _ f (mem_range.mpr hi), h, EReal.bot_add]

end Bottom

namespace Problem

variable {p : Problem ℝ} {s u w : Estimate ℝ}

noncomputable def labeledObserved (p : Problem ℝ) (s : Estimate ℝ) : EReal :=
  ∑ cls ∈ range p.classes, ((p.labeled.getD cls []).map fun e =>
    ((e.count : ℝ) : EReal) * ENNReal.log (.ofReal
      (likelihood (s.priors.getD cls 0) (s.weights.getD cls []) e.pattern))).sum

/-- The log-likelihood of the unlabeled counts, whatever class a pair belongs to. -/
noncomputable def unlabeledObserved (p : Problem ℝ) (s : Estimate ℝ) : EReal :=
  (p.unlabeled.map fun e => ((e.count : ℝ) : EReal) * ENNReal.log (.ofReal
    (∑ cls ∈ range p.classes,
      likelihood (s.priors.getD cls 0) (s.weights.getD cls []) e.pattern))).sum

/-- The blended log-likelihood of what was counted.  A part with factor 0 is left out. -/
noncomputable def observedLogLikelihood (p : Problem ℝ) (s : Estimate ℝ) : EReal :=
  (p.lambda : EReal) * p.labeledObserved s + ((1 - p.lambda : ℝ) : EReal) * p.unlabeledObserved s

theorem labeledObserved_eq_bot (hp : p.Sound) (hs : s.Shaped p) {cls : Nat} (hcls : cls < p.classes)
    {e : Tally.Entry} (he : e ∈ p.labeled.getD cls []) (h : ¬ s.Produces cls e.pattern) :
    p.labeledObserved s = ⊥ := by
  have hcount : (0 : ℝ) < e.count := Nat.cast_pos.mpr (hp.labeled_getD he).2
  have hlikelihood := not_lt.mp (mt (produces_iff hs hcls).mpr h)
  refine sum_range_eq_bot hcls (sum_eq_bot (List.mem_map.mpr ⟨e, he, ?_⟩))
  rw [ENNReal.log_ofReal, if_pos hlikelihood, EReal.coe_mul_bot_of_pos hcount]

theorem labeledObserved_eq_coe (hp : p.Sound) (hs : s.Shaped p)
    (h : ∀ cls < p.classes, ∀ e ∈ p.labeled.getD cls [], s.Produces cls e.pattern) :
    p.labeledObserved s = (p.labeledLogLikelihood s : ℝ) := by
  rw [labeledObserved, labeledLogLikelihood_eq hp hs, ← coe_sum_range]
  refine sum_congr rfl ?_
  intro cls hcls
  rw [← coe_sum_map]
  refine congrArg List.sum (List.map_congr_left ?_)
  intro e he
  have hproduces := h cls (mem_range.mp hcls) e he
  rw [ENNReal.log_ofReal_of_pos hproduces.likelihood_pos, hproduces.log_likelihood, EReal.coe_mul]
  rfl

theorem unlabeledObserved_eq_coe (h : ∀ e ∈ p.unlabeled, 0 < p.totalLikelihood s e.pattern) :
    p.unlabeledObserved s = ((p.unlabeled.map fun e =>
      (e.count : ℝ) * Real.log (p.totalLikelihood s e.pattern)).sum : ℝ) := by
  rw [unlabeledObserved, ← coe_sum_map]
  refine congrArg List.sum (List.map_congr_left ?_)
  intro e he
  rw [EReal.coe_mul, ← ENNReal.log_ofReal_of_pos (h e he), totalLikelihood]

theorem observedLogLikelihood_eq_bot (hp : p.Sound) (hs : s.Shaped p) (h : ¬ s.SupportsLabeled p) :
    p.observedLogLikelihood s = ⊥ := by
  simp only [Estimate.SupportsLabeled, not_forall] at h
  obtain ⟨hlambda, cls, hcls, e, he, hproduces⟩ := h
  rw [observedLogLikelihood, labeledObserved_eq_bot hp hs hcls he hproduces,
    EReal.coe_mul_bot_of_pos hlambda, EReal.bot_add]

theorem observedLogLikelihood_eq_coe (hp : p.Sound) (hs : s.Shaped p)
    (hlabeled : s.SupportsLabeled p) (h : p.expect s = .ok u) :
    p.observedLogLikelihood s = (p.observed s : ℝ) := by
  rw [observedLogLikelihood, observed, EReal.coe_add]
  congr 1
  · rcases hp.lambda_nonneg.eq_or_lt with hzero | hlambda
    · simp [← hzero]
    · rw [if_pos hlambda, labeledObserved_eq_coe hp hs (hlabeled hlambda), EReal.coe_mul]
  · by_cases hlambda : p.lambda < 1
    · rw [expect_eq_ok_iff, if_pos hlambda] at h
      rw [unlabeledObserved_eq_coe, EReal.coe_mul]
      intro e he
      obtain ⟨row, hrow⟩ := Traversal.exists_of_mapM_eq_ok (Traversal.mapM_eq_ok_iff.mpr h.1) he
      exact ((sharesOf_eq_ok_iff hs).mp hrow).1
    · simp [eq_one_of_not_lt hp hlambda]

/-! ## Steps and runs -/

/-- A step does not decrease the log-likelihood of what was counted. -/
theorem observedLogLikelihood_le_step (hp : p.Sound) (hs : s.Distributed p) (h : p.step s = .ok w) :
    p.observedLogLikelihood s ≤ p.observedLogLikelihood w := by
  obtain ⟨shares, hstep⟩ := step_withShares_ok h p.evenShares
  have ht := hs.stochastic
  -- The log-likelihoods do not look at the shares.
  change p.observedLogLikelihood (s.withShares p.evenShares) ≤
    p.observedLogLikelihood (w.withShares shares)
  by_cases hlabeled : (s.withShares p.evenShares).SupportsLabeled p
  · have hw := stochastic_step hp ht hstep
    have hsupports := supports_step hp ht hstep
    obtain ⟨u, hexpect, -⟩ := step_eq_ok_iff.mp hstep
    obtain ⟨v, hnext⟩ := exists_step_of_step hp ht.toShaped hstep
    obtain ⟨v', hexpect', -⟩ := step_eq_ok_iff.mp hnext
    rw [observedLogLikelihood_eq_coe hp ht.toShaped hlabeled hexpect,
      observedLogLikelihood_eq_coe hp hw.toShaped (hsupports.labeled hp) hexpect',
      EReal.coe_le_coe_iff]
    exact (observed_le_lowerBound_step hp ht hlabeled hstep).trans
      (lowerBound_le_observed hp hw hsupports hexpect')
  · rw [observedLogLikelihood_eq_bot hp ht.toShaped hlabeled]
    exact bot_le

theorem observedLogLikelihood_le_steps {n : Nat} (hp : p.Sound) (hs : s.Distributed p)
    (h : p.Steps n s u) : p.observedLogLikelihood s ≤ p.observedLogLikelihood u := by
  induction h with
  | refl => exact le_rfl
  | cons hstep _ ih =>
      exact (observedLogLikelihood_le_step hp hs hstep).trans
        (ih (Steps.distributed hp (.cons hstep (.refl _)) hs))

/-- The log-likelihood of what was counted never decreases: not in a step, not between two
estimates of a run, and not from the start of a run to what it finds. -/
theorem observedLogLikelihood_mono (hp : p.Sound) (hs : s.Distributed p) :
    (∀ w, p.step s = .ok w → p.observedLogLikelihood s ≤ p.observedLogLikelihood w) ∧
    (∀ m n u w, p.Steps m s u → p.Steps n u w →
      p.observedLogLikelihood u ≤ p.observedLogLikelihood w) ∧
    ∀ r events solution, (p.extend.runFrom r s.extend events).result = .ok solution →
      ∃ u, p.Steps solution.report.iterations s u ∧ solution.priors = u.extend.priors ∧
        solution.weights = u.extend.weights ∧
        p.observedLogLikelihood s ≤ p.observedLogLikelihood u := by
  refine ⟨?_, ?_, ?_⟩
  · intro w hstep
    exact observedLogLikelihood_le_step hp hs hstep
  · intro m n u w hfirst hsecond
    exact observedLogLikelihood_le_steps hp (hfirst.distributed hp hs) hsecond
  · intro r events solution hrun
    obtain ⟨n, t, hsteps, hpriors, hweights, hiterations, -⟩ := steps_of_continueRun hrun
    obtain ⟨u, rfl, hreal⟩ := hsteps.of_extend
    obtain rfl : solution.report.iterations = n := by rw [hiterations, Nat.zero_add]
    exact ⟨u, hreal, hpriors, hweights, observedLogLikelihood_le_steps hp hs hreal⟩

theorem observedLogLikelihood_mono_falling :
    Falling.problem.Sound ∧ Falling.start.Distributed Falling.problem ∧
      Falling.problem.step Falling.start = .ok (Falling.estimate (1 / 4)) ∧
      Falling.problem.observedLogLikelihood Falling.start ≤
        Falling.problem.observedLogLikelihood (Falling.estimate (1 / 4)) := by
  have hs := Falling.start_stochastic.distributed
  exact ⟨Falling.problem_sound, hs, Falling.step_start,
    (observedLogLikelihood_mono Falling.problem_sound hs).1 _ Falling.step_start⟩

end Problem

end Linkage
