import Linkage.Proofs.Estimation.Ascent

/-
# Runs that do not fail

A step fails on a pattern that no class produces and on a class that holds no amount.  Levels that do
not occur lose their weight in the first step, so positive weights do not stay positive.  What stays
is weaker: a class produces the patterns of which it holds an amount.  So a pattern keeps the classes
that have shares in it and a class keeps the patterns that it has shares in, and where one step
could be made, all further ones can.
-/

namespace Linkage

open Finset PatternSpace

namespace Problem

variable {p : Problem ℝ} {s u w : Estimate ℝ} {cls : Nat}

/-- A class has an amount just if it has labeled pairs or a share of unlabeled ones. -/
theorem total_pos_iff (hp : p.Sound) (hs : s.Shaped p) : 0 < p.total s cls ↔
    (0 < p.lambda ∧ p.labeled.getD cls [] ≠ []) ∨
      (p.lambda < 1 ∧ ∃ z ∈ p.unlabeled.zip s.shares, z.2.getD cls 0 ≠ 0) := by
  have hnonneg : ∀ a ∈ (p.mass s cls).map Mass.amount, 0 ≤ a := by
    intro a ha
    obtain ⟨m, hm, rfl⟩ := List.mem_map.mp ha
    exact (mass_fits hp hs m hm).2
  have hsum : 0 < p.total s cls ↔ ∃ m ∈ p.mass s cls, m.amount ≠ 0 := by
    rw [total, Mass.total_eq]
    constructor
    · intro hpos
      by_contra hzero
      push Not at hzero
      refine hpos.ne' (List.sum_eq_zero ?_)
      intro a ha
      obtain ⟨m, hm, rfl⟩ := List.mem_map.mp ha
      exact hzero m hm
    · rintro ⟨m, hm, hamount⟩
      have hmem := List.mem_map_of_mem (f := Mass.amount) hm
      exact (lt_of_le_of_ne (hnonneg _ hmem) hamount.symm).trans_le
        (List.single_le_sum hnonneg _ hmem)
  rw [hsum]
  constructor
  · rintro ⟨m, hm, hamount⟩
    rcases mem_mass_iff.mp hm with ⟨hlambda, e, he, -⟩ | ⟨hlambda, z, hz, rfl⟩
    · exact .inl ⟨hlambda, List.ne_nil_of_mem he⟩
    · exact .inr ⟨hlambda, z, hz, right_ne_zero_of_mul (left_ne_zero_of_mul hamount)⟩
  · rintro (⟨hlambda, hentries⟩ | ⟨hlambda, z, hz, hshare⟩)
    · obtain ⟨e, he⟩ := List.exists_mem_of_ne_nil _ hentries
      refine ⟨_, mem_mass_iff.mpr (.inl ⟨hlambda, e, he, rfl⟩), ?_⟩
      have hcount : 0 < e.count := (hp.labeled_getD he).2
      exact (mul_pos hlambda (Nat.cast_pos.mpr hcount)).ne'
    · refine ⟨_, mem_mass_iff.mpr (.inr ⟨hlambda, z, hz, rfl⟩), ?_⟩
      have hcount : 0 < z.1.count := (hp.unlabeled z.1 (List.of_mem_zip hz).1).2
      exact mul_ne_zero (mul_ne_zero (sub_pos.mpr hlambda).ne' hshare) (Nat.cast_pos.mpr hcount).ne'

/-! ## Expectation -/

theorem exists_expect_eq_ok (hs : s.Shaped p)
    (h : p.lambda < 1 → ∀ e ∈ p.unlabeled, ∃ cls < p.classes, s.Produces cls e.pattern) :
    ∃ u, p.expect s = .ok u := by
  by_cases hlambda : p.lambda < 1
  · have hshares : ∀ e ∈ p.unlabeled, ∃ row, sharesOf s e = .ok row := by
      intro e he
      obtain ⟨cls, hcls, hproduces⟩ := h hlambda e he
      have htotal : 0 < p.totalLikelihood s e.pattern :=
        sum_pos' (fun cls hcls => likelihood_getD_nonneg hs (mem_range.mp hcls) _)
          ⟨cls, mem_range.mpr hcls, hproduces.likelihood_pos⟩
      exact ⟨_, (sharesOf_eq_ok_iff hs).mpr ⟨htotal, rfl⟩⟩
    obtain ⟨rows, hrows⟩ := Traversal.exists_mapM_eq_ok hshares
    refine ⟨s.withShares rows, ?_⟩
    rw [expect_eq_ok_iff, if_pos hlambda]
    exact ⟨Traversal.mapM_eq_ok_iff.mp hrows, rfl⟩
  · exact ⟨s, expect_of_not_lt hlambda⟩

theorem exists_mem_zip_shares (hs : s.Shaped p) {e : Tally.Entry} (he : e ∈ p.unlabeled) :
    ∃ row, (e, row) ∈ p.unlabeled.zip s.shares := by
  rw [← @List.map_fst_zip _ _ p.unlabeled s.shares hs.shares.ge] at he
  obtain ⟨z, hz, rfl⟩ := List.mem_map.mp he
  exact ⟨z.2, hz⟩

theorem exists_share_ne_zero (hs : s.Shaped p) (h : p.expect s = .ok u) (hlambda : p.lambda < 1)
    (hcls : cls < p.classes) {e : Tally.Entry} (he : e ∈ p.unlabeled)
    (hproduces : s.Produces cls e.pattern) :
    ∃ row, (e, row) ∈ p.unlabeled.zip u.shares ∧ row.getD cls 0 ≠ 0 := by
  obtain ⟨row, hrow⟩ := exists_mem_zip_shares (shaped_expect hs h) he
  refine ⟨row, hrow, ?_⟩
  rw [expect_eq_ok_iff, if_pos hlambda] at h
  obtain ⟨htotal, rfl⟩ := (sharesOf_eq_ok_iff hs).mp ((List.forall₂_iff_zip.mp h.1).2 hrow)
  rw [getD_map_range _ _ _ hcls]
  exact (div_pos hproduces.likelihood_pos htotal).ne'

theorem total_expect_pos (hp : p.Sound) (hs : s.Shaped p) (h : p.expect s = .ok u)
    (hlambda : p.lambda < 1) (hcls : cls < p.classes) {e : Tally.Entry} (he : e ∈ p.unlabeled)
    (hproduces : s.Produces cls e.pattern) : 0 < p.total u cls := by
  obtain ⟨row, hrow, hshare⟩ := exists_share_ne_zero hs h hlambda hcls he hproduces
  exact (total_pos_iff hp (shaped_expect hs h)).mpr (.inr ⟨hlambda, (e, row), hrow, hshare⟩)

/-! ## Where one step can be made -/

theorem exists_produces_of_step (hp : p.Sound) (hs : s.Shaped p) (h : p.step s = .ok w)
    (hlambda : p.lambda < 1) {e : Tally.Entry} (he : e ∈ p.unlabeled) :
    ∃ cls < p.classes, w.Produces cls e.pattern := by
  obtain ⟨u, hexpect, hmaximize⟩ := step_eq_ok_iff.mp h
  obtain ⟨htotal, rfl⟩ := maximize_eq_ok_iff.mp hmaximize
  have hu := shaped_expect hs hexpect
  obtain ⟨row, hrow⟩ := exists_mem_zip_shares hu he
  obtain ⟨hlen, -, hsum⟩ := (shares_expect hs hlambda hexpect).2 row (List.of_mem_zip hrow).2
  -- The shares of the pattern sum to 1, so one of them is not 0.
  have hshare : ∃ cls ∈ range p.classes, row.getD cls 0 ≠ 0 := by
    refine exists_ne_zero_of_sum_ne_zero ?_
    rw [← hlen, sum_getD, hsum]
    exact one_ne_zero
  obtain ⟨cls, hcls, hne⟩ := hshare
  have hsupports := supports_maximum hp hu htotal
  exact ⟨cls, mem_range.mp hcls, hsupports.unlabeled hp hlambda (mem_range.mp hcls) hrow hne⟩

/-- Where one step could be made, another one can. -/
theorem exists_step_of_step (hp : p.Sound) (hs : s.Shaped p) (h : p.step s = .ok w) :
    ∃ v, p.step w = .ok v := by
  have hnext : p.lambda < 1 → ∀ e ∈ p.unlabeled, ∃ cls < p.classes, w.Produces cls e.pattern :=
    fun hlambda _ => exists_produces_of_step hp hs h hlambda
  obtain ⟨u, hexpect, hmaximize⟩ := step_eq_ok_iff.mp h
  obtain ⟨htotal, rfl⟩ := maximize_eq_ok_iff.mp hmaximize
  have hu := shaped_expect hs hexpect
  have hw := shaped_maximum hp hu
  obtain ⟨v, hv⟩ := exists_expect_eq_ok hw hnext
  refine ⟨p.maximum v, step_eq_ok_iff.mpr ⟨v, hv, maximize_eq_ok_iff.mpr ⟨?_, rfl⟩⟩⟩
  intro cls hcls
  rcases (total_pos_iff hp hu).mp (htotal cls hcls) with hlabeled | ⟨hlambda, z, hz, hshare⟩
  · exact (total_pos_iff hp (shaped_expect hw hv)).mpr (.inl hlabeled)
  · have hsupports := supports_maximum hp hu htotal
    exact total_expect_pos hp hw hv hlambda hcls (List.of_mem_zip hz).1
      (hsupports.unlabeled hp hlambda hcls hz hshare)

theorem exists_step_withShares_iff (shares : List (List ℝ)) :
    (∃ v, p.step (s.withShares shares) = .ok v) ↔ ∃ v, p.step s = .ok v := by
  obtain ⟨shares', hstep⟩ := step_withShares p s shares
  rw [hstep]
  cases p.step s <;> simp [Except.map]

theorem nonneg_step (hp : p.Sound) (hs : s.Nonneg p) (h : p.step s = .ok w) : w.Nonneg p := by
  obtain ⟨shares, hstep⟩ := step_withShares_ok h p.evenShares
  obtain ⟨u, hexpect, hmaximize⟩ := step_eq_ok_iff.mp hstep
  obtain ⟨-, hw⟩ := maximize_eq_ok_iff.mp hmaximize
  have hshaped := (shaped_maximum hp (shaped_expect hs.shaped hexpect)).nonneg
  rw [← hw] at hshaped
  exact { hshaped with }

/-- Where the first step can be made, every further one can. -/
theorem exists_step_of_steps {n : Nat} (hp : p.Sound) (hs : s.Nonneg p)
    (hstep : ∃ w, p.step s = .ok w) (h : p.Steps n s u) : ∃ v, p.step u = .ok v := by
  induction h with
  | refl => exact hstep
  | cons hfirst _ ih =>
      refine ih (nonneg_step hp hs hfirst) ?_
      obtain ⟨shares, hfirst'⟩ := step_withShares_ok hfirst p.evenShares
      exact (exists_step_withShares_iff shares).mp (exists_step_of_step hp hs.shaped hfirst')

/-! ## Positive parameters -/

end Problem

/-- Parameters without a zero. -/
structure Estimate.Positive (s : Estimate ℝ) : Prop where
  priors : ∀ w ∈ s.priors, 0 < w
  weights : ∀ rows ∈ s.weights, ∀ row ∈ rows, ∀ w ∈ row, 0 < w

namespace Problem

variable {p : Problem ℝ} {s u w : Estimate ℝ} {cls : Nat}

theorem produces_of_positive (hs : s.Nonneg p) (hpos : s.Positive) (hcls : cls < p.classes)
    {x : Pattern} (hx : Fits p.levels x) : s.Produces cls x := by
  have hmem : s.weights.getD cls [] ∈ s.weights := hs.shaped.getD_mem hcls
  have hrows := hs.rows _ hmem
  refine (likely_iff hrows hx).mpr ⟨?_, ?_⟩
  · rw [List.getD_eq_getElem _ _ (hs.priors ▸ hcls)]
    exact hpos.priors _ (List.getElem_mem _)
  · intro k hk
    have hrow : k < (s.weights.getD cls []).length := hrows.length_eq ▸ hk
    have hlevel := levelAt_lt hx hk
    rw [← hrows.row_length hk] at hlevel
    rw [cell, List.getD_eq_getElem _ _ hlevel]
    refine hpos.weights _ hmem _ ?_ _ (List.getElem_mem _)
    rw [List.getD_eq_getElem _ _ hrow]
    exact List.getElem_mem _

theorem exists_step_of_positive (hp : p.Sound) (hclasses : 0 < p.classes)
    (hunlabeled : p.unlabeled ≠ []) (hlabeled : 0 < p.lambda → ∀ cls < p.classes,
      p.labeled.getD cls [] ≠ []) (hs : s.Nonneg p) (hpos : s.Positive) :
    ∃ w, p.step s = .ok w := by
  have hshaped := hs.shaped
  have hproduces : ∀ cls < p.classes, ∀ e ∈ p.unlabeled,
      (s.withShares p.evenShares).Produces cls e.pattern := fun cls hcls e he =>
    produces_of_positive hs hpos hcls (hp.unlabeled e he).1
  obtain ⟨u, hexpect⟩ := exists_expect_eq_ok hshaped fun _ e he =>
    ⟨0, hclasses, hproduces 0 hclasses e he⟩
  refine (exists_step_withShares_iff p.evenShares).mp ⟨p.maximum u, step_eq_ok_iff.mpr
    ⟨u, hexpect, maximize_eq_ok_iff.mpr ⟨?_, rfl⟩⟩⟩
  intro cls hcls
  by_cases hlambda : p.lambda < 1
  · obtain ⟨e, he⟩ := List.exists_mem_of_ne_nil _ hunlabeled
    exact total_expect_pos hp hshaped hexpect hlambda hcls he (hproduces cls hcls e he)
  · have hone : 0 < p.lambda := eq_one_of_not_lt hp hlambda ▸ one_pos
    exact (total_pos_iff hp (shaped_expect hshaped hexpect)).mpr
      (.inl ⟨hone, hlabeled hone cls hcls⟩)

/-! ## Runs -/

/-- A run has a result if its first step can be made. -/
theorem exists_runFrom_eq_ok (hp : p.Sound) (hs : s.Nonneg p) (hstep : ∃ w, p.step s = .ok w)
    (r : StopRule) (events : Array (Event Extended)) :
    ∃ solution, (p.extend.runFrom r s.extend events).result = .ok solution :=
  exists_continueRun_eq_ok (exists_step_extend fun _ _ => exists_step_of_steps hp hs hstep)

/-- From positive parameters every step can be made, so that a run over pairs of every kind has a
result.  From parameters without negative numbers a run fails in its first step or not at all. -/
theorem degenerate_at_start_only (hp : p.Sound) (hs : s.Nonneg p) :
    (0 < p.classes → p.unlabeled ≠ [] →
      (p.labeled.length = p.classes ∨ p.lambda = 0 ∧ p.labeled = []) →
      (∀ entries ∈ p.labeled, entries ≠ []) → s.Positive →
      (∀ n u, p.Steps n s u → ∃ v w, p.expect u = .ok v ∧ p.maximize v = .ok w) ∧
      ∀ r events, ∃ solution, (p.extend.runFrom r s.extend events).result = .ok solution) ∧
    ∀ r events e, (p.extend.runFrom r s.extend events).result = .error e →
      p.extend.step s.extend = .error e ∧ (p.extend.runFrom r s.extend events).events = events := by
  refine ⟨?_, ?_⟩
  · intro hclasses hunlabeled hlabeled hentries hpos
    have hfirst : ∃ w, p.step s = .ok w := by
      refine exists_step_of_positive hp hclasses hunlabeled ?_ hs hpos
      intro hlambda cls hcls
      rcases hlabeled with hlen | ⟨hzero, -⟩
      · rw [List.getD_eq_getElem _ _ (hlen ▸ hcls)]
        exact hentries _ (List.getElem_mem _)
      · exact absurd hzero hlambda.ne'
    have hall : ∀ n u, p.Steps n s u → ∃ v, p.step u = .ok v := fun n u =>
      exists_step_of_steps hp hs hfirst
    refine ⟨?_, ?_⟩
    · intro n u hsteps
      obtain ⟨w, hw⟩ := hall n u hsteps
      obtain ⟨v, hv⟩ := step_eq_ok_iff.mp hw
      exact ⟨v, w, hv⟩
    · intro r events
      exact exists_continueRun_eq_ok (exists_step_extend hall)
  · intro r events e herror
    refine runFrom_eq_error ?_ herror
    intro t hstep n u hsteps
    have hfirst : ∃ w, p.step s = .ok w := by
      rw [step_extend] at hstep
      cases hreal : p.step s with
      | error e' =>
          rw [hreal] at hstep
          cases hstep
      | ok w => exact ⟨w, rfl⟩
    exact exists_step_extend (fun n u => exists_step_of_steps hp hs hfirst) (n + 1) u
      (.cons hstep hsteps)

/-! ## A level that does not occur -/

namespace Vanishing

/-- A comparator whose first level does not occur. -/
noncomputable def problem : Problem ℝ where
  levels := [3]
  classes := 2
  unlabeled := [⟨1, [1], 2⟩, ⟨2, [2], 1⟩]
  labeled := [[⟨1, [1], 1⟩], [⟨2, [2], 3⟩]]
  lambda := 1 / (2 : ℕ)

noncomputable def start : Estimate ℝ where
  priors := List.replicate 2 (1 / (2 : ℕ))
  weights := List.replicate 2 [List.replicate 3 (1 / (3 : ℕ))]
  shares := []

/-- All weight on the level that does not occur. -/
noncomputable def stuck : Estimate ℝ where
  priors := List.replicate 2 (1 / (2 : ℕ))
  weights := [[[1, 0, 0]], [[1, 0, 0]]]
  shares := []

theorem problem_sound : problem.Sound where
  lambda_nonneg := by norm_num [problem]
  lambda_le_one := by norm_num [problem]
  classes := le_refl 2
  unlabeled := by simp [problem, PatternSpace.Fits]
  labeled := by simp [problem, PatternSpace.Fits]

theorem start_nonneg : start.Nonneg problem where
  priors := rfl
  priors_nonneg := by norm_num [start]
  weights := rfl
  rows := by simp [start, problem, RowsFit]
  rows_nonneg := by norm_num [start]

theorem start_positive : start.Positive where
  priors := by norm_num [start]
  weights := by norm_num [start]

theorem stuck_nonneg : stuck.Nonneg problem where
  priors := rfl
  priors_nonneg := by norm_num [stuck]
  weights := rfl
  rows := by simp [stuck, problem, RowsFit]
  rows_nonneg := by norm_num [stuck]

theorem step_stuck : problem.step stuck = .error (.degeneratePattern 1) := by
  have hshares : sharesOf stuck ⟨1, [1], 2⟩ = .error (.degeneratePattern 1) := by
    norm_num [sharesOf, stuck, likelihood, List.replicate_succ]
  rw [step, expect, if_pos (by norm_num [problem]),
    show problem.unlabeled = [⟨1, [1], 2⟩, ⟨2, [2], 1⟩] from rfl, Traversal.mapM_cons_error hshares]
  rfl

theorem runFrom_stuck :
    (problem.extend.runFrom {} stuck.extend #[]).result = .error (.degeneratePattern 1) := by
  have hstep : problem.extend.step stuck.extend = .error (.degeneratePattern 1) := by
    rw [step_extend, step_stuck]
    rfl
  exact congrArg Observed.result (continueRun_error hstep)

end Vanishing

theorem degenerate_at_start_only_vanishing :
    Vanishing.problem.Sound ∧ 0 < Vanishing.problem.classes ∧ Vanishing.problem.unlabeled ≠ [] ∧
      Vanishing.problem.labeled.length = Vanishing.problem.classes ∧
      (∀ entries ∈ Vanishing.problem.labeled, entries ≠ []) ∧
      Vanishing.start.Nonneg Vanishing.problem ∧ Vanishing.start.Positive ∧
      (∃ solution, (Vanishing.problem.extend.runFrom {} Vanishing.start.extend #[]).result =
        .ok solution) ∧
      Vanishing.stuck.Nonneg Vanishing.problem ∧
      (Vanishing.problem.extend.runFrom {} Vanishing.stuck.extend #[]).events = #[] := by
  have hentries : ∀ entries ∈ Vanishing.problem.labeled, entries ≠ [] := by
    simp [Vanishing.problem]
  have hruns := (degenerate_at_start_only Vanishing.problem_sound Vanishing.start_nonneg).1
    Nat.two_pos (List.cons_ne_nil _ _) (.inl rfl) hentries Vanishing.start_positive
  have hstuck := (degenerate_at_start_only Vanishing.problem_sound Vanishing.stuck_nonneg).2
    {} #[] _ Vanishing.runFrom_stuck
  exact ⟨Vanishing.problem_sound, Nat.two_pos, List.cons_ne_nil _ _, rfl, hentries,
    Vanishing.start_nonneg, Vanishing.start_positive, hruns.2 {} #[], Vanishing.stuck_nonneg,
    hstuck.2⟩

end Problem

end Linkage
