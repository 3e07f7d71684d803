import Linkage.Proofs.Estimation.Expectation

/-
# What grows from step to step

An expectation step makes the log-likelihood and the entropy of the shares together as great as the
log-likelihood of the observed counts, and a maximization step does not decrease them.  So it is
their sum that grows with every step.  The log-likelihood that a run reports is without the entropy,
and it can fall: by what the entropy gains, unless there is no part for unlabeled counts.
-/

namespace Linkage.Problem

open Extended (number top bottom)

variable {p : Problem ℝ} {s u w : Estimate ℝ}

/-! ## One step -/

theorem classes_pos (hs : s.Stochastic p) : 0 < p.classes :=
  hs.distributed.classes_pos

theorem step_eq_ok_iff : p.step s = .ok w ↔ ∃ u, p.expect s = .ok u ∧ p.maximize u = .ok w := by
  rw [step]
  exact Traversal.bind_eq_ok_iff

theorem stochastic_step (hp : p.Sound) (hs : s.Stochastic p) (h : p.step s = .ok w) :
    w.Stochastic p := by
  obtain ⟨u, hexpect, hmaximize⟩ := step_eq_ok_iff.mp h
  obtain ⟨htotal, rfl⟩ := maximize_eq_ok_iff.mp hmaximize
  have hu := stochastic_expect hs hexpect
  exact stochastic_maximum hp hu.toShaped hu.shares_sum (classes_pos hs) htotal

theorem distributed_step (hp : p.Sound) (hclasses : 0 < p.classes) (hs : s.Nonneg p)
    (h : p.step s = .ok w) : w.Distributed p := by
  obtain ⟨shares, hstep⟩ := step_withShares_ok h p.evenShares
  obtain ⟨u, hexpect, hmaximize⟩ := step_eq_ok_iff.mp hstep
  obtain ⟨htotal, hw⟩ := maximize_eq_ok_iff.mp hmaximize
  have hsum : ∀ row ∈ u.shares, row.sum = 1 := by
    by_cases hlambda : p.lambda < 1
    · exact fun row hrow => ((shares_expect hs.shaped hlambda hexpect).2 row hrow).2.2
    · rw [expect_of_not_lt hlambda] at hexpect
      exact Except.ok.inj hexpect ▸ Estimate.evenShares_sum hclasses
  have hmax := (stochastic_maximum hp (shaped_expect hs.shaped hexpect) hsum hclasses htotal).distributed
  rw [← hw] at hmax
  exact { hmax with }

theorem supports_step (hp : p.Sound) (hs : s.Stochastic p) (h : p.step s = .ok w) :
    w.Supports p := by
  obtain ⟨u, hexpect, hmaximize⟩ := step_eq_ok_iff.mp h
  obtain ⟨htotal, rfl⟩ := maximize_eq_ok_iff.mp hmaximize
  exact supports_maximum hp (stochastic_expect hs hexpect).toShaped htotal

/-- A step increases the log-likelihood and the entropy together to that of the observed counts, at
least, if the classes produce their labeled patterns. -/
theorem observed_le_lowerBound_step (hp : p.Sound) (hs : s.Stochastic p)
    (hlabeled : s.SupportsLabeled p) (h : p.step s = .ok w) : p.observed s ≤ p.lowerBound w := by
  obtain ⟨u, hexpect, hmaximize⟩ := step_eq_ok_iff.mp h
  obtain ⟨htotal, rfl⟩ := maximize_eq_ok_iff.mp hmaximize
  have hu := stochastic_expect hs hexpect
  have husupports := supports_expect hs.toShaped hlabeled hexpect
  calc p.observed s
      = p.logLikelihood u + p.entropy u := (lowerBound_expect hp hs hexpect).symm
    _ ≤ p.logLikelihood (p.maximum u) + p.entropy u :=
        add_le_add_left (logLikelihood_le_maximum hp hu husupports (classes_pos hs) htotal) _
    _ = p.lowerBound (p.maximum u) := rfl

theorem observed_le_step (hp : p.Sound) (hs : s.Stochastic p) (hsupports : s.Supports p)
    (h : p.step s = .ok w) : p.observed s ≤ p.lowerBound w :=
  observed_le_lowerBound_step hp hs (hsupports.labeled hp) h

theorem lowerBound_le_observed_of_step (hp : p.Sound) (hs : s.Stochastic p)
    (hsupports : s.Supports p) (h : p.step s = .ok w) : p.lowerBound s ≤ p.observed s := by
  obtain ⟨u, hexpect, -⟩ := step_eq_ok_iff.mp h
  exact lowerBound_le_observed hp hs hsupports hexpect

/-! ## A run -/

theorem Steps.stochastic {n : Nat} (hp : p.Sound) (h : p.Steps n s u) (hs : s.Stochastic p) :
    u.Stochastic p := by
  induction h with
  | refl => exact hs
  | cons hstep _ ih => exact ih (stochastic_step hp hs hstep)

theorem Steps.distributed {n : Nat} (hp : p.Sound) (h : p.Steps n s u) (hs : s.Distributed p) :
    u.Distributed p := by
  obtain ⟨shares, hsteps⟩ := h.withShares p.evenShares
  have hu := (hsteps.stochastic hp hs.stochastic).distributed
  exact { hu with }

theorem Steps.distributed_of_pos {n : Nat} (hp : p.Sound) (hclasses : 0 < p.classes)
    (h : p.Steps n s u) (hs : s.Nonneg p) (hn : 0 < n) : u.Distributed p := by
  cases h with
  | refl => cases hn
  | cons hstep hsteps => exact hsteps.distributed hp (distributed_step hp hclasses hs hstep)

theorem Steps.supports {n : Nat} (hp : p.Sound) (h : p.Steps n s u) (hs : s.Stochastic p)
    (hn : 0 < n) : u.Supports p := by
  induction h with
  | refl => cases hn
  | cons hstep hsteps ih =>
      cases hsteps with
      | refl => exact supports_step hp hs hstep
      | cons hstep' hsteps' => exact ih (stochastic_step hp hs hstep) (Nat.succ_pos _)

/-- From the second iteration of a run on, what is reported falls by no more than what the entropy of
the shares gains. -/
theorem reported_add_entropy_le (hp : p.Sound) (hs : s.Stochastic p) {r : StopRule} {n : Nat}
    {new delta : Extended} (hn : 0 < n)
    (h : Event.iteration (n + 1) new delta ∈ (p.extend.runFrom r s.extend #[]).events) :
    ∃ u w d, p.Steps n s u ∧ p.step u = .ok w ∧
      Event.iteration n (number (p.logLikelihood u)) d ∈
        (p.extend.runFrom r s.extend #[]).events ∧
      (∀ old d, Event.iteration n old d ∈ (p.extend.runFrom r s.extend #[]).events →
        old = number (p.logLikelihood u)) ∧
      new = number (p.logLikelihood w) ∧
      delta = number (p.logLikelihood w - p.logLikelihood u) ∧
      p.logLikelihood u + p.entropy u ≤ p.observed u ∧
      p.observed u ≤ p.logLikelihood w + p.entropy w ∧
      (p.lambda = 1 → 0 ≤ p.logLikelihood w - p.logLikelihood u) := by
  obtain ⟨k, u', w', hr⟩ := reports_of_mem_runFrom h
  obtain rfl : n = k := by have := hr.number_eq; omega
  obtain ⟨u, rfl, hsteps⟩ := hr.steps.of_extend
  have hstep := hr.step
  rw [step_extend] at hstep
  cases hw : p.step u with
  | error e =>
      rw [hw] at hstep
      cases hstep
  | ok w =>
      rw [hw] at hstep
      obtain rfl : w.extend = w' := Except.ok.inj hstep
      have hu := hsteps.stochastic hp hs
      have husupports := hsteps.supports hp hs hn
      have hold := logLikelihood_extend hp hu.toShaped husupports
      have hnew := logLikelihood_extend hp (stochastic_step hp hu hw).toShaped
        (supports_step hp hu hw)
      have hlow := lowerBound_le_observed_of_step hp hu husupports hw
      have hhigh := observed_le_step hp hu husupports hw
      obtain ⟨d, hd⟩ := hr.previous hn
      refine ⟨u, w, d, hsteps, hw, ?_, ?_, ?_, ?_, hlow, hhigh, ?_⟩
      · rwa [Nat.zero_add, hold] at hd
      · intro old d hmem
        rw [logLikelihood_eq_of_mem_runFrom hmem hr.steps, hold]
      · rw [hr.logLikelihood_eq, hnew]
      · rw [hr.delta_eq, hold, hnew, Extended.number_sub]
      · intro hlambda
        have hentropy : ∀ t, p.entropy t = 0 := fun t => by simp [entropy, hlambda]
        have hle := hlow.trans hhigh
        simp only [lowerBound, hentropy, add_zero] at hle
        exact sub_nonneg.mpr hle

/-! ## A run whose log-likelihood falls -/

namespace Falling

/-- Two comparators and two classes. -/
noncomputable def problem : Problem ℝ where
  levels := [2, 2]
  classes := 2
  unlabeled := [⟨0, [0, 0], 1⟩, ⟨2, [0, 1], 2⟩, ⟨3, [1, 1], 1⟩]
  labeled := []
  lambda := 0

/-- The second class produces the second pattern alone. -/
noncomputable def start : Estimate ℝ where
  priors := [1 / 2, 1 / 2]
  weights := [[[2 / 3, 1 / 3], [1 / 2, 1 / 2]], [[1, 0], [0, 1]]]
  shares := [[0, 1], [0, 1], [0, 1]]

/-- Shares of which only one part of the second entry is left to the second class. -/
def shares (x : ℝ) : List (List ℝ) :=
  [[1, 0], [x, 1 - x], [1, 0]]

/-- The estimate that a maximization step makes of them. -/
noncomputable def estimate (x : ℝ) : Estimate ℝ where
  priors := [(1 + x) / 2, (1 - x) / 2]
  weights :=
    [[[(1 + 2 * x) / (2 + 2 * x), 1 / (2 + 2 * x)], [1 / (2 + 2 * x), (1 + 2 * x) / (2 + 2 * x)]],
      [[1, 0], [0, 1]]]
  shares := shares x

theorem problem_sound : problem.Sound where
  lambda_nonneg := le_refl 0
  lambda_le_one := zero_le_one
  classes := Nat.zero_le 2
  unlabeled := by simp [problem, PatternSpace.Fits]
  labeled := by simp [problem]

theorem start_stochastic : start.Stochastic problem := by
  constructor
  case priors_sum => norm_num [start]
  case rows_sum => norm_num [start]
  case shares_sum => norm_num [start]
  constructor
  case priors => rfl
  case priors_nonneg => norm_num [start]
  case weights => rfl
  case rows => simp [start, problem, RowsFit]
  case rows_nonneg => norm_num [start]
  case shares => rfl
  case shares_row => simp [start, problem]
  case shares_nonneg => norm_num [start]

theorem maximize_of_shares {s : Estimate ℝ} {x : ℝ} (hx : 0 ≤ x) (hx' : x < 1)
    (hs : s.shares = shares x) : problem.maximize s = .ok (estimate x) := by
  have hfirst : 1 + x * 2 + 1 = 2 + 2 * x := by ring
  have hsecond : (1 - x) * 2 = 2 - 2 * x := by ring
  refine maximize_eq_ok_iff.mpr ⟨?_, ?_⟩
  · intro cls hcls
    rcases cls with _ | _ | cls
    · norm_num [problem, hs, shares, mass, labeledMass, unlabeledMass, Mass.total]
      positivity
    · norm_num [problem, hs, shares, mass, labeledMass, unlabeledMass, Mass.total]
      exact hx'
    · exact absurd hcls (by simp [problem])
  · have hne : 2 + 2 * x ≠ 0 := by positivity
    have hne' : 2 - 2 * x ≠ 0 := by linarith
    norm_num [problem, estimate, hs, shares, maximum, mass, labeledMass, unlabeledMass, Mass.total,
      Mass.normalize, Mass.table, Mass.addTo, List.range_succ, sum_eq, List.replicate_succ, hfirst,
      hsecond, hne, hne']
    refine ⟨⟨?_, ?_⟩, ?_, ?_⟩ <;> ring

theorem step_start : problem.step start = .ok (estimate (1 / 4)) := by
  refine step_eq_ok_iff.mpr ⟨{ start with shares := shares (1 / 4) }, ?_, ?_⟩
  · rw [expect_eq_ok_iff]
    norm_num [problem, start, shares, sharesOf, likelihood]
  · exact maximize_of_shares (by norm_num) (by norm_num) rfl

theorem step_estimate : problem.step (estimate (1 / 4)) = .ok (estimate (3 / 8)) := by
  refine step_eq_ok_iff.mpr ⟨{ estimate (1 / 4) with shares := shares (3 / 8) }, ?_, ?_⟩
  · rw [expect_eq_ok_iff]
    norm_num [problem, estimate, shares, sharesOf, likelihood]
  · exact maximize_of_shares (by norm_num) (by norm_num) rfl

theorem logLikelihood_estimate {x : ℝ} (hx : 0 < x) (hx' : x < 1) :
    problem.logLikelihood (estimate x) =
      (2 + 2 * x) * Real.log ((1 + x) / 2) + (2 + 4 * x) * Real.log ((1 + 2 * x) / (2 + 2 * x)) +
        2 * Real.log (1 / (2 + 2 * x)) + (2 - 2 * x) * Real.log ((1 - x) / 2) := by
  have hne : 1 - x ≠ 0 := by linarith
  simp [logLikelihood, problem, estimate, shares, unlabeledLogLikelihood, expectedLogLikelihood,
    logLikelihoodIn, hx.ne', hne, log_eq]
  ring

/-- Times four, the difference is the logarithm of `3 ^ 18 * 2 ^ 8 * 11 ^ 11 / (5 ^ 15 * 7 ^ 14)`. -/
theorem logLikelihood_falls :
    problem.logLikelihood (estimate (3 / 8)) < problem.logLikelihood (estimate (1 / 4)) := by
  have hpow : 15 * Real.log 5 + 14 * Real.log 7 <
      18 * Real.log 3 + 8 * Real.log 2 + 11 * Real.log 11 := by
    have hlog := Real.log_lt_log (by norm_num)
      (show (5 ^ 15 * 7 ^ 14 : ℝ) < 3 ^ 18 * 2 ^ 8 * 11 ^ 11 by norm_num)
    simpa [Real.log_mul, Real.log_pow] using hlog
  have htwo : ∀ n : ℕ, Real.log (2 ^ n) = n * Real.log 2 := fun n => Real.log_pow 2 n
  have h4 : Real.log 4 = 2 * Real.log 2 := by simpa using (by norm_num : (4 : ℝ) = 2 ^ 2) ▸ htwo 2
  have h8 : Real.log 8 = 3 * Real.log 2 := by simpa using (by norm_num : (8 : ℝ) = 2 ^ 3) ▸ htwo 3
  have h16 : Real.log 16 = 4 * Real.log 2 := by
    simpa using (by norm_num : (16 : ℝ) = 2 ^ 4) ▸ htwo 4
  rw [logLikelihood_estimate (by norm_num) (by norm_num),
    logLikelihood_estimate (by norm_num) (by norm_num)]
  norm_num [Real.log_div, h4, h8, h16]
  linarith

/-- The second class does not produce the first pattern, of which it has all. -/
theorem logLikelihood_start : problem.extend.logLikelihood start.extend = bottom := by
  simp [logLikelihood, problem, start, Problem.extend, Estimate.extend, extendRows,
    unlabeledLogLikelihood, expectedLogLikelihood, logLikelihoodIn, Extended.log_number,
    Extended.log_zero]
  simp [Extended.zero_eq, Extended.number_mul_bottom]

noncomputable def events : Array (Event Extended) :=
  (problem.extend.runFrom ⟨2, 1e-7, 1⟩ start.extend #[]).events

theorem logLikelihood_extend_estimate {s : Estimate ℝ} {x : ℝ} (hs : s.Stochastic problem)
    (h : problem.step s = .ok (estimate x)) :
    problem.extend.logLikelihood (estimate x).extend = number (problem.logLikelihood (estimate x)) :=
  logLikelihood_extend problem_sound (stochastic_step problem_sound hs h).toShaped
    (supports_step problem_sound hs h)

theorem iteration_one_mem :
    Event.iteration 1 (number (problem.logLikelihood (estimate (1 / 4)))) top ∈ events := by
  have hstep : problem.extend.step start.extend = .ok (estimate (1 / 4)).extend := by
    rw [step_extend, step_start]
    rfl
  rw [← Extended.number_sub_bottom (problem.logLikelihood (estimate (1 / 4))),
    ← logLikelihood_start, ← logLikelihood_extend_estimate start_stochastic step_start]
  exact iteration_mem_continueRun hstep

theorem iteration_two_mem :
    Event.iteration 2 (number (problem.logLikelihood (estimate (3 / 8))))
      (number (problem.logLikelihood (estimate (3 / 8)) - problem.logLikelihood (estimate (1 / 4)))) ∈
        events := by
  have hfirst : problem.extend.step start.extend = .ok (estimate (1 / 4)).extend := by
    rw [step_extend, step_start]
    rfl
  have hsecond : problem.extend.step (estimate (1 / 4)).extend = .ok (estimate (3 / 8)).extend := by
    rw [step_extend, step_estimate]
    rfl
  have hold := logLikelihood_extend_estimate start_stochastic step_start
  have hnew := logLikelihood_extend_estimate
    (stochastic_step problem_sound start_stochastic step_start) step_estimate
  rw [← Extended.number_sub, ← hold, ← hnew, events, runFrom, continueRun_succ hfirst, if_neg]
  · exact iteration_mem_continueRun hsecond
  · rw [hold, logLikelihood_start, Extended.number_sub_bottom]
    exact fun h => Extended.not_top_lt _ h.2

end Falling

theorem reported_add_entropy_le_falling :
    Falling.problem.Sound ∧ Falling.start.Stochastic Falling.problem ∧ 0 < 1 ∧ ∃ u w d,
      Falling.problem.Steps 1 Falling.start u ∧ Falling.problem.step u = .ok w ∧
      Event.iteration 1 (number (Falling.problem.logLikelihood u)) d ∈ Falling.events ∧
      number (Falling.problem.logLikelihood (Falling.estimate (3 / 8))) =
        number (Falling.problem.logLikelihood w) ∧
      Falling.problem.logLikelihood u + Falling.problem.entropy u ≤ Falling.problem.observed u ∧
      Falling.problem.observed u ≤
        Falling.problem.logLikelihood w + Falling.problem.entropy w := by
  obtain ⟨u, w, d, hsteps, hstep, hd, -, hnew, -, hlow, hhigh, -⟩ :=
    reported_add_entropy_le Falling.problem_sound Falling.start_stochastic one_pos
      Falling.iteration_two_mem
  exact ⟨Falling.problem_sound, Falling.start_stochastic, one_pos, u, w, d, hsteps, hstep, hd, hnew,
    hlow, hhigh⟩

/-- The log-likelihood that a run reports can fall, also with exact arithmetic. -/
theorem reported_falls :
    Falling.problem.Sound ∧ Falling.start.Stochastic Falling.problem ∧ ∃ old new : ℝ,
      Event.iteration 1 (number old) top ∈
        (Falling.problem.extend.runFrom ⟨2, 1e-7, 1⟩ Falling.start.extend #[]).events ∧
      Event.iteration 2 (number new) (number (new - old)) ∈
        (Falling.problem.extend.runFrom ⟨2, 1e-7, 1⟩ Falling.start.extend #[]).events ∧
      new < old :=
  ⟨Falling.problem_sound, Falling.start_stochastic, _, _, Falling.iteration_one_mem,
    Falling.iteration_two_mem, Falling.logLikelihood_falls⟩

end Linkage.Problem
