import Linkage.Proofs.Estimation.Learner

/-
# Estimation from labeled pairs alone

At the blend 1 neither the shares of unlabeled pairs nor the parameters of an estimate enter a step.
So the first step reaches the same parameters from any estimate, those of the labeled pairs, and the
second step stays there: its log-likelihood does not change, and the run ends.  What is learned is
what labeled pairs teach without a run, whatever was drawn and whatever pairs are without a label.
-/

namespace Linkage

open Extended (number)

namespace Problem

/-! ## A run that reaches a fixed point in one step -/

section Fixed

variable {α : Type} [Arithmetic α] {p : Problem α} {s t : Estimate α} {tolerance old : α}
  {events : Array (Event α)}

/-- A run whose first step reaches a fixed point stays there, and ends with the second step. -/
theorem continueRun_fixed (hstep : p.step s = .ok t) (hfixed : p.step t = .ok t)
    (hdelta : 0 ≤ p.logLikelihood t - p.logLikelihood t ∧
      p.logLikelihood t - p.logLikelihood t < tolerance) (left : Nat) :
    ∃ report, (p.continueRun tolerance (left + 1) 0 s old events).result =
        .ok ⟨t.priors, t.weights, report⟩ ∧
      (0 < left → report.converged = true ∧ report.iterations ≤ 2) := by
  rw [continueRun_succ hstep]
  split
  case isTrue => exact ⟨_, rfl, fun _ => ⟨rfl, one_le_two⟩⟩
  case isFalse =>
    cases left with
    | zero => exact ⟨_, rfl, fun h => absurd h (lt_irrefl 0)⟩
    | succ left =>
        rw [continueRun_succ hfixed, if_pos hdelta]
        exact ⟨_, rfl, fun _ => ⟨rfl, le_rfl⟩⟩

theorem logLikelihood_withShares (hlambda : ¬ p.lambda < 1) (shares : List (List α)) :
    p.logLikelihood (s.withShares shares) = p.logLikelihood s := by
  rw [logLikelihood, logLikelihood]
  simp only [if_neg hlambda]
  rfl

end Fixed

/-! ## Steps at the blend 1 -/

variable {p : Problem ℝ}

noncomputable def blank (p : Problem ℝ) : Estimate ℝ where
  priors := List.replicate p.classes 0
  weights := List.replicate p.classes (p.levels.map fun n => List.replicate n 0)
  shares := p.evenShares

theorem shaped_blank (p : Problem ℝ) : p.blank.Shaped p := by
  have hnonneg : p.blank.Nonneg p := by
    refine ⟨List.length_replicate, ?_, List.length_replicate, ?_, ?_⟩
    · intro w hw
      rw [List.eq_of_mem_replicate hw]
    · intro rows hrows
      rw [List.eq_of_mem_replicate hrows]
      exact Mass.rowsFit_zero ℝ p.levels
    · intro rows hrows row hrow w hw
      rw [List.eq_of_mem_replicate hrows] at hrow
      obtain ⟨n, -, rfl⟩ := List.mem_map.mp hrow
      rw [List.eq_of_mem_replicate hw]
  exact hnonneg.shaped

/-- The estimate that a step reaches if every class has labeled pairs, and nothing else counts. -/
noncomputable def ofLabeled (p : Problem ℝ) : Estimate ℝ :=
  p.maximum p.blank

theorem distributed_ofLabeled (hp : p.Sound) (hclasses : 0 < p.classes)
    (htotal : ∀ cls < p.classes, 0 < p.total p.blank cls) : p.ofLabeled.Distributed p :=
  (stochastic_maximum hp (shaped_blank p) (Estimate.evenShares_sum hclasses) hclasses
    htotal).distributed

theorem step_extend_eq (hlambda : ¬ p.lambda < 1)
    (htotal : ∀ cls < p.classes, 0 < p.total p.blank cls) (s : Estimate Extended) :
    p.extend.step s = .ok (p.ofLabeled.extend.withShares s.shares) := by
  have hlambda' : ¬ p.extend.lambda < 1 := hlambda
  have hblank : p.extend.maximize p.blank.extend = .ok p.ofLabeled.extend := by
    rw [maximize_extend, maximize_eq_ok_iff.mpr ⟨htotal, rfl⟩]
    rfl
  rw [step, expect_of_not_lt hlambda']
  change p.extend.maximize s = _
  rw [maximize_of_not_lt hlambda' s p.blank.extend, hblank]
  rfl

/-- A solution with these parameters, from a run that has converged if it may make two steps. -/
def Settled (p : Problem ℝ) (r : StopRule) (solution : Solution Extended) : Prop :=
  solution.priors = p.ofLabeled.priors.map number ∧
    solution.weights = p.ofLabeled.weights.map extendRows ∧
      (2 ≤ r.maxIterations →
        solution.report.converged = true ∧ solution.report.iterations ≤ 2)

theorem exists_runFrom_settled (hp : p.Sound) (hlambda : ¬ p.lambda < 1)
    (htotal : ∀ cls < p.classes, 0 < p.total p.blank cls) {r : StopRule} (hr : r.check = .ok ())
    (s : Estimate Extended) (events : Array (Event Extended)) :
    ∃ solution, (p.extend.runFrom r s events).result = .ok solution ∧ p.Settled r solution := by
  obtain ⟨hiterations, ⟨hfinite, hpos⟩, -⟩ := StopRule.check_eq_ok_iff.mp hr
  obtain ⟨y, hy, htolerance⟩ := exists_ofFloat_eq_of_pos hfinite hpos
  have hlambda' : ¬ p.extend.lambda < 1 := hlambda
  have hlikelihood : p.extend.logLikelihood (p.ofLabeled.extend.withShares s.shares) =
      number (p.logLikelihood p.ofLabeled) := by
    have hblank := shaped_blank p
    rw [logLikelihood_withShares hlambda']
    exact logLikelihood_extend hp (shaped_maximum hp hblank) (supports_maximum hp hblank htotal)
  have hdelta : 0 ≤ number (p.logLikelihood p.ofLabeled) - number (p.logLikelihood p.ofLabeled) ∧
      number (p.logLikelihood p.ofLabeled) - number (p.logLikelihood p.ofLabeled) < number y := by
    rw [Extended.number_sub, sub_self]
    exact ⟨Extended.number_le_number.mpr le_rfl, hy⟩
  rw [← hlikelihood, ← htolerance] at hdelta
  obtain ⟨left, hleft⟩ := Nat.exists_eq_succ_of_ne_zero hiterations.ne'
  obtain ⟨report, hreport, hconverged⟩ := continueRun_fixed (step_extend_eq hlambda htotal s)
    (step_extend_eq hlambda htotal (p.ofLabeled.extend.withShares s.shares)) hdelta left
  refine ⟨⟨p.ofLabeled.extend.priors, p.ofLabeled.extend.weights, report⟩, ?_, rfl, rfl, ?_⟩
  · rw [runFrom, hleft]
    exact hreport
  · rw [hleft]
    exact fun h => hconverged (Nat.lt_of_succ_lt_succ h)

/-! ## The shares of labeled pairs -/

section Labeled

variable {c : RecordComparator} {unlabeled : Tally} {labeled : List Tally}

/-- The counts to be explained at the blend 1. -/
noncomputable def atOne (c : RecordComparator) (unlabeled : Tally) (labeled : List Tally) :
    Problem ℝ :=
  ⟨c.levels, labeled.length, unlabeled.entries, labeled.map Tally.entries, 1⟩

theorem mass_atOne (s : Estimate ℝ) {cls : Nat} (hcls : cls < labeled.length) :
    (atOne c unlabeled labeled).mass s cls = labeled[cls].masses := by
  have hlambda : ¬ (atOne c unlabeled labeled).lambda < 1 := lt_irrefl 1
  have hpos : 0 < (atOne c unlabeled labeled).lambda := one_pos
  have hentries : (atOne c unlabeled labeled).labeled.getD cls [] = labeled[cls].entries := by
    rw [List.getD_eq_getElem _ _ (by simpa [atOne] using hcls)]
    exact List.getElem_map ..
  rw [mass_of_not_lt hlambda, labeledMass, if_pos hpos, hentries, Tally.masses]
  exact List.map_congr_left fun e _ => congrArg _ (one_mul _)

theorem totals_atOne (s : Estimate ℝ) : ((List.range (atOne c unlabeled labeled).classes).map
    fun cls => Mass.total ((atOne c unlabeled labeled).mass s cls)) =
      labeled.map fun t => (t.total : ℝ) := by
  refine map_range_eq_map labeled ?_
  intro cls hcls
  rw [mass_atOne s hcls, Tally.total_masses]

theorem weights_ofLabeled (hlabeled : ∀ t ∈ labeled, t.Filled c) :
    (atOne c unlabeled labeled).ofLabeled.weights =
      labeled.map fun t => (t.shares : List (List ℝ)) := by
  refine map_range_eq_map labeled ?_
  intro cls hcls
  rw [mass_atOne _ hcls, Tally.shares_eq (hlabeled _ (List.getElem_mem hcls))]
  rfl

theorem priors_ofLabeled : (atOne c unlabeled labeled).ofLabeled.priors =
    labeled.map fun t => (t.total : ℝ) / (labeled.map Tally.total).sum := by
  have hall : Arithmetic.sum (labeled.map fun t => (t.total : ℝ)) =
      ((labeled.map Tally.total).sum : ℕ) := by
    rw [sum_eq, Nat.cast_list_sum, List.map_map]
    rfl
  refine map_range_eq_map labeled ?_
  intro cls hcls
  rw [totals_atOne, hall, mass_atOne _ hcls, Tally.total_masses]

theorem total_atOne_pos (hlabeled : ∀ t ∈ labeled, t.Filled c) :
    ∀ cls < (atOne c unlabeled labeled).classes,
      0 < (atOne c unlabeled labeled).total (atOne c unlabeled labeled).blank cls := by
  intro cls hcls
  rw [total, mass_atOne _ hcls, Tally.total_masses]
  exact Nat.cast_pos.mpr (Tally.total_pos (hlabeled _ (List.getElem_mem hcls)))

theorem exists_solve_atOne {γ : Type} [Draws γ Extended] {r : StopRule}
    (htallies : ∀ t ∈ unlabeled :: labeled, t.Filled c) (hr : r.check = .ok ()) (g : γ) :
    ∃ solution, ((atOne c unlabeled labeled).extend.solve r g).1.result = .ok solution ∧
      (atOne c unlabeled labeled).Settled r solution := by
  set p := atOne c unlabeled labeled with hp
  have hsound : p.Sound := sound_of_filled htallies le_rfl ⟨zero_le_one, le_rfl⟩
  have htotal : ∀ cls < p.classes, 0 < p.total p.blank cls :=
    total_atOne_pos fun t ht => htallies t (List.mem_cons_of_mem _ ht)
  refine exists_solve (StopRule.check_eq_ok_iff.mp hr).2.2 ?_
  intro i _ events
  exact exists_runFrom_settled hsound (lt_irrefl 1) htotal hr _ events

end Labeled

end Problem

/-- At the blend 1 the learner of labeled and unlabeled pairs makes the model of the labeled pairs
alone, with the shares of the classes for priors.  What is drawn and what is without a label makes
no difference. -/
theorem learnSemiSupervised_one {c : RecordComparator} {matchCount : Nat} {labeled : List Tally}
    (hlen : 2 ≤ labeled.length) (hmatch : 0 < matchCount ∧ matchCount < labeled.length)
    (hlabeled : ∀ t ∈ labeled, t.Filled c) :
    ∃ m : Model Extended, learnSupervised matchCount labeled = .ok m ∧
      ∀ {γ : Type} [Draws γ Extended] (g : γ) (r : StopRule) (unlabeled : Tally),
        r.check = .ok () → unlabeled.Filled c → ∃ fit : Fit Extended,
          (learnSemiSupervised matchCount 1 r g unlabeled labeled).1.result = .ok fit ∧
          fit.model = { m with priors := some (labeled.map fun t =>
            number (t.total / (labeled.map Tally.total).sum)) } ∧
          (∀ x, fit.model.scorePattern x = m.scorePattern x) ∧
          (2 ≤ r.maxIterations → fit.report.converged = true ∧ fit.report.iterations ≤ 2) := by
  have hclasses := Model.checkClasses_eq_ok_iff.mpr ⟨hlen, hmatch⟩
  refine ⟨Model.ofShares c matchCount labeled, (learnSupervised_eq_ok hlabeled hclasses).1, ?_⟩
  intro γ _ g r unlabeled hr hunlabeled
  have htallies : ∀ t ∈ unlabeled :: labeled, t.Filled c :=
    List.forall_mem_cons.mpr ⟨hunlabeled, hlabeled⟩
  obtain ⟨solution, hsolve, hpriors, hweights, hconverged⟩ :=
    Problem.exists_solve_atOne htallies hr g
  have hdistributed : solution.Distributed (Problem.atOne c unlabeled labeled) :=
    ⟨_, Problem.distributed_ofLabeled (Problem.sound_of_filled htallies le_rfl ⟨zero_le_one, le_rfl⟩)
      (Nat.zero_lt_of_lt hlen) (Problem.total_atOne_pos hlabeled), hpriors, hweights⟩
  obtain ⟨hfit, -⟩ :=
    learnSemiSupervised_eq_ok htallies ⟨zero_le_one, le_rfl⟩ hr hclasses hsolve hdistributed
  rw [Problem.weights_ofLabeled hlabeled, ← Tally.map_shares_extend hlabeled] at hweights
  rw [Problem.priors_ofLabeled, List.map_map] at hpriors
  rw [hweights, hpriors] at hfit
  exact ⟨_, hfit, rfl, fun _ => rfl, hconverged⟩

theorem learnSemiSupervised_one_firstNames :
    (∀ t ∈ [FirstNames.same, FirstNames.different], t.Filled FirstNames.comparator) ∧
      ∃ (m : Model Extended) (fit : Fit Extended),
        learnSupervised 1 [FirstNames.same, FirstNames.different] = .ok m ∧
        (learnSemiSupervised 1 1 {} FirstNames.generator FirstNames.same
          [FirstNames.same, FirstNames.different]).1.result = .ok fit ∧
        fit.model.weights = m.weights ∧
        fit.model.priors = some [number (2 / 3), number (1 / 3)] ∧
        fit.report.converged = true ∧ fit.report.iterations ≤ 2 := by
  have hlabeled : ∀ t ∈ [FirstNames.same, FirstNames.different], t.Filled FirstNames.comparator :=
    fun t ht => FirstNames.filled t (List.mem_cons_of_mem _ ht)
  have hmatch : 0 < 1 ∧ 1 < [FirstNames.same, FirstNames.different].length := by decide
  obtain ⟨m, hm, hfits⟩ := learnSemiSupervised_one le_rfl hmatch hlabeled
  obtain ⟨fit, hfit, hmodel, -, hconverged⟩ := hfits FirstNames.generator {} FirstNames.same rfl
    (hlabeled _ List.mem_cons_self)
  refine ⟨hlabeled, m, fit, hm, hfit, by rw [hmodel], ?_, hconverged (by decide)⟩
  have hsame : FirstNames.same.total = 4 := rfl
  have hdifferent : FirstNames.different.total = 2 := rfl
  rw [hmodel]
  norm_num [hsame, hdifferent]

end Linkage
