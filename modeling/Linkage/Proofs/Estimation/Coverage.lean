import Linkage.Proofs.Estimation.Learner
import Linkage.Proofs.Mixture.Finite

/-
# Levels that occur and levels that do not

A run over unlabeled pairs that starts from positive parameters keeps two things.  Every class
produces every pattern that was counted: so it gets a share of the pattern, and an amount in each of
its levels.  And no class gets an amount in a level that no counted pattern has.  So after a step a
level has weight in all classes or in none, whether or not its pattern was counted, and the model
that is learned scores every pattern by a number.
-/

namespace Linkage

open Extended (number top bottom)
open PatternSpace

/-! ## What a step keeps -/

namespace Estimate

/-- Every class produces the unlabeled patterns. -/
def Covers (p : Problem ℝ) (s : Estimate ℝ) : Prop :=
  ∀ cls < p.classes, ∀ e ∈ p.unlabeled, s.Produces cls e.pattern

/-- No class gives weight to a level that no unlabeled pattern has. -/
def Silences (p : Problem ℝ) (s : Estimate ℝ) : Prop :=
  ∀ cls < p.classes, ∀ k < p.levels.length, ∀ level < p.levels.getD k 0,
    (∀ e ∈ p.unlabeled, levelAt e.pattern k ≠ level) → cell (s.weights.getD cls []) k level = 0

end Estimate

namespace Problem

variable {p : Problem ℝ} {s u w : Estimate ℝ}

theorem covers_of_positive (hp : p.Sound) (hs : s.Nonneg p) (hpos : s.Positive) : s.Covers p :=
  fun _ hcls e he => produces_of_positive hs hpos hcls (hp.unlabeled e he).1

/-- A class that produces a pattern has a share of it, and goes on producing it. -/
theorem covers_step (hp : p.Sound) (hs : s.Nonneg p) (hlambda : p.lambda < 1) (hcovers : s.Covers p)
    (h : p.step s = .ok w) : w.Covers p := by
  obtain ⟨shares, hstep⟩ := step_withShares_ok h p.evenShares
  obtain ⟨u, hexpect, hmaximize⟩ := step_eq_ok_iff.mp hstep
  obtain ⟨htotal, hw⟩ := maximize_eq_ok_iff.mp hmaximize
  have hsupports := supports_maximum hp (shaped_expect hs.shaped hexpect) htotal
  intro cls hcls e he
  obtain ⟨row, hrow, hshare⟩ :=
    exists_share_ne_zero hs.shaped hexpect hlambda hcls he (hcovers cls hcls e he)
  have hproduces := hsupports.unlabeled hp hlambda hcls hrow hshare
  rw [← hw] at hproduces
  exact hproduces

/-- Without labeled pairs no amount goes to a level that does not occur. -/
theorem silences_step (hp : p.Sound) (hs : s.Nonneg p) (hlambda : p.lambda = 0)
    (h : p.step s = .ok w) : w.Silences p := by
  obtain ⟨shares, hstep⟩ := step_withShares_ok h p.evenShares
  obtain ⟨u, hexpect, hmaximize⟩ := step_eq_ok_iff.mp hstep
  obtain ⟨-, hw⟩ := maximize_eq_ok_iff.mp hmaximize
  have hu := shaped_expect hs.shaped hexpect
  intro cls hcls k hk level hlevel hnone
  have hcell : cell ((p.maximum u).weights.getD cls []) k level = 0 := by
    rw [rows_maximum p u hcls, Mass.cell_normalize,
      Mass.cell_table (fun m hm => (mass_fits hp hu m hm).1) hk hlevel]
    refine div_eq_zero_iff.mpr (.inl (List.sum_eq_zero ?_))
    intro a ha
    obtain ⟨m, hm, rfl⟩ := List.mem_map.mp ha
    rcases mem_mass_iff.mp hm with ⟨hpos, -⟩ | ⟨-, z, hz, rfl⟩
    · exact absurd hlambda hpos.ne'
    · exact if_neg (hnone z.1 (List.of_mem_zip hz).1)
  rw [← hw] at hcell
  exact hcell

/-- A run from positive parameters keeps its patterns, and after a step it has no other levels. -/
theorem Steps.covers_silences {n : Nat} (hp : p.Sound) (hlambda : p.lambda = 0)
    (h : p.Steps n s u) (hs : s.Nonneg p) (hcovers : s.Covers p) (hn : 0 < n) :
    u.Covers p ∧ u.Silences p := by
  have hlt : p.lambda < 1 := hlambda ▸ one_pos
  induction h with
  | refl => cases hn
  | cons hstep hsteps ih =>
      have hcovers' := covers_step hp hs hlt hcovers hstep
      cases hsteps with
      | refl => exact ⟨hcovers', silences_step hp hs hlambda hstep⟩
      | cons hstep' hsteps' => exact ih (nonneg_step hp hs hstep) hcovers' (Nat.succ_pos _)

end Problem

/-! ## Weights of levels -/

/-- A level that occurs has weight in all classes, and any other in none. -/
theorem Estimate.unanimous {p : Problem ℝ} {s : Estimate ℝ} (hp : p.Sound) (hs : s.Nonneg p)
    (hcovers : s.Covers p) (hsilences : s.Silences p) :
    Weights.Unanimous (s.weights.map extendRows) := by
  intro k level
  have hclass : ∀ rows ∈ s.weights, ∃ cls < p.classes, s.weights.getD cls [] = rows := by
    intro rows hrows
    obtain ⟨cls, hcls, rfl⟩ := List.mem_iff_getElem.mp hrows
    exact ⟨cls, hs.weights ▸ hcls, List.getD_eq_getElem _ _ hcls⟩
  by_cases hoccurs : ∃ e ∈ p.unlabeled, levelAt e.pattern k = level
  · obtain ⟨e, he, rfl⟩ := hoccurs
    refine .inr ?_
    intro xrows hxrows w hw
    obtain ⟨rows, hrows, rfl⟩ := List.mem_map.mp hxrows
    obtain ⟨hk, -, -, rfl⟩ := entry_extendRows hw
    obtain ⟨cls, hcls, rfl⟩ := hclass rows hrows
    have hfit := hs.rows _ hrows
    have hlikely := (likely_iff hfit (hp.unlabeled e he).1).mp (hcovers cls hcls e he)
    exact ⟨_, hlikely.2 k (hfit.length_eq ▸ hk), rfl⟩
  · refine .inl (List.all_eq_true.mpr ?_)
    intro xrows hxrows
    obtain ⟨rows, hrows, rfl⟩ := List.mem_map.mp hxrows
    cases hentry : ((extendRows rows)[k]?).bind (·[level]?) with
    | none => rfl
    | some w =>
        obtain ⟨hk, hlevel, -, rfl⟩ := entry_extendRows hentry
        obtain ⟨cls, hcls, rfl⟩ := hclass rows hrows
        have hfit := hs.rows _ hrows
        have hk' : k < p.levels.length := hfit.length_eq ▸ hk
        rw [hfit.row_length hk'] at hlevel
        have hzero := hsilences cls hcls k hk' level hlevel fun e he heq => hoccurs ⟨e, he, heq⟩
        exact beq_real_iff_eq.mpr hzero

/-! ## What is learned -/

/-- A solution of a run that covers the unlabeled patterns, and silences the other levels. -/
structure Solution.Covering (p : Problem ℝ) (solution : Solution Extended) : Prop where
  distributed : solution.Distributed p
  unanimous : solution.weights.Unanimous

/-- A random estimate of positive parameters. -/
def Problem.StartsPositive {γ α : Type} [Arithmetic α] [Draws γ α] (p : Problem α) (g : γ) : Prop :=
  (∀ w ∈ (p.start g).1.priors, 0 < w) ∧
    ∀ rows ∈ (p.start g).1.weights, ∀ row ∈ rows, ∀ w ∈ row, 0 < w

section Learner

variable {γ : Type} [Draws γ Extended] {p : Problem ℝ} {r : StopRule} {g : γ}

theorem Problem.exists_start_of_positive (hdraws : Simplex.UnitDraws γ)
    (h : p.extend.StartsPositive g) :
    ∃ s : Estimate ℝ, (p.extend.start g).1 = s.extend ∧ s.Nonneg p ∧ s.Positive := by
  obtain ⟨s, hstart, hs⟩ := exists_start hdraws p g
  obtain ⟨hpriors, hweights⟩ := h
  rw [hstart] at hpriors hweights
  refine ⟨s, hstart, hs, ?_, ?_⟩
  · intro w hw
    exact hpriors (number w) (List.mem_map_of_mem hw)
  · intro rows hrows row hrow w hw
    exact hweights (extendRows rows) (List.mem_map_of_mem hrows) (row.map number)
      (List.mem_map_of_mem hrow) (number w) (List.mem_map_of_mem hw)

theorem Problem.exists_runFrom_covering (hdraws : Simplex.UnitDraws γ) (hp : p.Sound)
    (hlambda : p.lambda = 0) (hclasses : 0 < p.classes) (hunlabeled : p.unlabeled ≠ [])
    (hr : r.check = .ok ()) (hpos : p.extend.StartsPositive g) (events : Array (Event Extended)) :
    ∃ solution, (p.extend.runFrom r (p.extend.start g).1 events).result = .ok solution ∧
      solution.Covering p := by
  obtain ⟨s, hstart, hs, hspos⟩ := exists_start_of_positive hdraws hpos
  have hfirst : ∃ w, p.step s = .ok w := exists_step_of_positive hp hclasses hunlabeled
    (fun h => absurd hlambda h.ne') hs hspos
  obtain ⟨solution, hsolution⟩ := exists_runFrom_eq_ok hp hs hfirst r events
  rw [hstart]
  refine ⟨solution, hsolution, ?_⟩
  obtain ⟨n, u, hsteps, hpriors, hweights, -, hn⟩ := steps_of_continueRun hsolution
  obtain ⟨v, rfl, hreal⟩ := hsteps.of_extend
  have hn := hn (StopRule.check_eq_ok_iff.mp hr).1
  have hv := hreal.distributed_of_pos hp hclasses hs hn
  obtain ⟨hcovers, hsilences⟩ :=
    hreal.covers_silences hp hlambda hs (covers_of_positive hp hs hspos) hn
  refine ⟨⟨v, hv, hpriors, hweights⟩, ?_⟩
  rw [hweights]
  exact v.unanimous hp hv.toNonneg hcovers hsilences

/-- A model of unanimous weights stays finite when its match class comes first. -/
theorem finite_of_modelOfUnlabeled {c : RecordComparator} {solution : Solution Extended}
    {fit : Fit Extended} (h : modelOfUnlabeled c solution = .ok fit)
    (hsolution : solution.weights.Unanimous) : fit.model.Over c ∧ fit.model.Finite := by
  rw [modelOfUnlabeled] at h
  obtain ⟨m, hmake, h⟩ := Traversal.bind_eq_ok_iff.mp h
  obtain ⟨m', hpriors, h⟩ := Traversal.bind_eq_ok_iff.mp h
  obtain ⟨m'', hmatch, h⟩ := Traversal.bind_eq_ok_iff.mp h
  obtain rfl := Except.ok.inj h
  exact ⟨.withMatchClasses (.withPriors (.make hmake) hpriors) hmatch,
    ((Model.finite_of_make hmake hsolution).withPriors hpriors).withMatchClasses hmatch⟩

end Learner

/-- The counts of a tally, to be explained by a number of classes. -/
noncomputable def Problem.ofTally (classes : Nat) (t : Tally) : Problem ℝ :=
  ⟨t.comparator.levels, classes, t.entries, [], 0⟩

/-- From positive parameters the learner of unlabeled pairs makes a model, whatever was counted, and
the model scores every pattern by a number: also the patterns that were not counted, and those with
levels that no counted pattern has.  Only if there are more classes than a vector has places, there is
no estimate to begin with, and the learner refuses them. -/
theorem learnUnsupervised_scores_all {γ : Type} [Draws γ Extended] (hdraws : Simplex.UnitDraws γ)
    {t : Tally} (ht : t.Sound) (hne : t.isEmpty = false) {classes : Nat} (hclasses : 2 ≤ classes)
    {r : StopRule} (hr : r.check = .ok ()) (g : γ) (hpos : ∀ run < r.restarts,
      (Problem.ofTally classes t).extend.StartsPositive
        ((Problem.ofTally classes t).extend.sourceAt run g)) :
    ∃ fit : Fit Extended,
      (learnUnsupervised classes r g t).1.result = (Simplex.checkLength classes).map (fun _ => fit) ∧
      fit.model.comparator = t.comparator ∧
      ∀ p, Fits t.comparator.levels p → ∃ x : ℝ, fit.model.scorePattern p = .ok (number x) := by
  have hentries : t.entries ≠ [] := by
    intro hnil
    rw [Tally.isEmpty_iff.mpr hnil] at hne
    cases hne
  have hfilled : ∀ u ∈ [t], u.Filled t.comparator := by
    intro u hu
    rw [List.mem_singleton.mp hu]
    exact ⟨rfl, ht, hentries⟩
  have hcheckClasses : checkClasses classes 1 = .ok () :=
    Model.checkClasses_eq_ok_iff.mpr ⟨hclasses, Nat.one_pos, hclasses⟩
  have hcheck : checkUnsupervised classes r t =
      (Simplex.checkLength classes).map fun _ => t.comparator := by
    rw [checkUnsupervised, hcheckClasses, hr, checkTallies_eq_ok (List.cons_ne_nil _ _) hfilled]
    cases Simplex.checkLength classes <;> rfl
  have hp : (Problem.ofTally classes t).Sound :=
    Problem.sound_of_filled hfilled (Nat.zero_le _) ⟨le_rfl, zero_le_one⟩
  obtain ⟨solution, hsolution, hcovering⟩ :=
    Problem.exists_solve (StopRule.check_eq_ok_iff.mp hr).2.2 fun run hrun events =>
      Problem.exists_runFrom_covering hdraws hp rfl (Nat.zero_lt_of_lt hclasses) hentries hr
        (hpos run hrun) events
  obtain ⟨m, hm, -⟩ := modelOfUnlabeled_eq_ok hcheckClasses rfl hcovering.distributed
  obtain ⟨hover, hfinite⟩ := finite_of_modelOfUnlabeled hm hcovering.unanimous
  have hresult : (learnUnsupervised classes r g t).1.result =
      (Simplex.checkLength classes).map fun _ => ⟨m, solution.report⟩ := by
    rw [learnUnsupervised, hcheck]
    cases Simplex.checkLength classes with
    | error e => rfl
    | ok _ =>
        change (Problem.solve _ r g).1.result >>= _ = _
        rw [show (Problem.solve ⟨t.comparator.levels, classes, t.entries, [], 0⟩ r g).1.result =
          .ok solution from hsolution]
        exact hm
  refine ⟨_, hresult, hover.shaped.comparator, ?_⟩
  intro p hfits
  exact hfinite.scorePattern hover.shaped hfits

/-- The draws of the generator of first names are positive. -/
theorem FirstNames.startsPositive :
    (Problem.ofTally 2 different).extend.StartsPositive generator := by
  obtain ⟨hfirst, hsecond, hthird⟩ := draws_pos
  have hfirst' := generator.value_lt_one
  have hsecond' := generator.next.2.value_lt_one
  have hthird' := generator.next.2.next.2.value_lt_one
  have hlevels : (Problem.ofTally 2 different).extend.levels = [2] := rfl
  have hclasses : (Problem.ofTally 2 different).extend.classes = 2 := rfl
  rw [Problem.StartsPositive, Problem.start]
  simp only [hlevels, hclasses, Simplex.tables, Simplex.partitions, partition_two]
  constructor <;> simp [*]

/-- A tally of pairs that all disagree leaves the other level unobserved. -/
theorem learnUnsupervised_scores_all_different :
    FirstNames.different.Sound ∧ StopRule.check {} = .ok () ∧
    (∀ run < 1, (Problem.ofTally 2 FirstNames.different).extend.StartsPositive
      ((Problem.ofTally 2 FirstNames.different).extend.sourceAt run FirstNames.generator)) ∧
    ∃ fit : Fit Extended,
      (learnUnsupervised 2 {} FirstNames.generator FirstNames.different).1.result = .ok fit ∧
      ∃ x : ℝ, fit.model.scorePattern [1] = .ok (number x) := by
  have hr : StopRule.check {} = .ok () := rfl
  have hpos : ∀ run < 1, (Problem.ofTally 2 FirstNames.different).extend.StartsPositive
      ((Problem.ofTally 2 FirstNames.different).extend.sourceAt run FirstNames.generator) := by
    intro run hrun
    obtain rfl := Nat.lt_one_iff.mp hrun
    exact FirstNames.startsPositive
  obtain ⟨fit, hfit, -, hscores⟩ := learnUnsupervised_scores_all Generator.unitDraws
    FirstNames.sound_different rfl le_rfl hr FirstNames.generator hpos
  exact ⟨FirstNames.sound_different, hr, hpos, fit, hfit,
    hscores [1] (.cons Nat.one_lt_two .nil)⟩

end Linkage
