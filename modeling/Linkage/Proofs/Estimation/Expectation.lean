import Linkage.Proofs.Estimation.Maximization
import Linkage.Proofs.Estimation.Parameters
import Mathlib.Analysis.SpecialFunctions.Log.NegMulLog

/-
# Expectation

The shares of an entry that an expectation step estimates are its likelihoods, scaled.  Of all
shares these have the greatest sum of their expected log-likelihood and their entropy, which is then
the logarithm of the total likelihood.  So it is this sum that an expectation step does not
decrease; the expected log-likelihood alone can fall by what the entropy gains.
-/

namespace Linkage

open PatternSpace Finset

/-- The entropy of the shares of an entry. -/
noncomputable def entropyOf (shares : List ℝ) : ℝ :=
  (shares.map Real.negMulLog).sum

namespace Problem

variable {p : Problem ℝ} {s u : Estimate ℝ} {x : Pattern}

/-- The entropy of the shares of the unlabeled counts, with the part that these have. -/
noncomputable def entropy (p : Problem ℝ) (s : Estimate ℝ) : ℝ :=
  (1 - p.lambda) * ((p.unlabeled.zip s.shares).map fun z => (z.1.count : ℝ) * entropyOf z.2).sum

/-- The likelihood of a pattern in all classes. -/
noncomputable def totalLikelihood (p : Problem ℝ) (s : Estimate ℝ) (x : Pattern) : ℝ :=
  ∑ cls ∈ range p.classes, likelihood (s.priors.getD cls 0) (s.weights.getD cls []) x

/-! ## The shares of an entry -/

theorem likelihoods_eq (hs : s.Shaped p) (x : Pattern) :
    s.priors.zipWith (fun prior rows => likelihood prior rows x) s.weights =
      (List.range p.classes).map fun cls =>
        likelihood (s.priors.getD cls 0) (s.weights.getD cls []) x := by
  refine List.ext_getElem ?_ ?_
  · simp [hs.priors, hs.weights]
  · intro cls hcls _
    rw [List.length_zipWith] at hcls
    rw [List.getElem_zipWith, List.getElem_map, List.getElem_range,
      List.getD_eq_getElem _ _ (by omega), List.getD_eq_getElem _ _ (by omega)]

theorem sharesOf_eq_ok_iff (hs : s.Shaped p) {e : Tally.Entry} {shares : List ℝ} :
    sharesOf s e = .ok shares ↔ 0 < p.totalLikelihood s e.pattern ∧
      shares = (List.range p.classes).map fun cls =>
        likelihood (s.priors.getD cls 0) (s.weights.getD cls []) e.pattern /
          p.totalLikelihood s e.pattern := by
  have htotal : ((List.range p.classes).map fun cls =>
      likelihood (s.priors.getD cls 0) (s.weights.getD cls []) e.pattern).foldl (· + ·) 0 =
        p.totalLikelihood s e.pattern := by
    rw [← List.sum_eq_foldl, sum_map_range, totalLikelihood]
  rw [sharesOf, likelihoods_eq hs]
  simp only [htotal, List.map_map]
  split
  case isTrue hpos =>
    rw [Except.ok.injEq, eq_comm]
    exact (and_iff_right hpos).symm
  case isFalse hpos => simp [hpos]

theorem likelihood_getD_nonneg (hs : s.Shaped p) {cls : Nat} (hcls : cls < p.classes) (x : Pattern) :
    0 ≤ likelihood (s.priors.getD cls 0) (s.weights.getD cls []) x :=
  likelihood_nonneg (getD_nonneg hs.priors_nonneg cls) (hs.rows_nonneg _ (hs.getD_mem hcls))

theorem produces_iff (hs : s.Shaped p) {cls : Nat} (hcls : cls < p.classes) :
    s.Produces cls x ↔ 0 < likelihood (s.priors.getD cls 0) (s.weights.getD cls []) x :=
  ⟨Likely.likelihood_pos, likely_of_likelihood_pos (getD_nonneg hs.priors_nonneg cls)
    (hs.rows_nonneg _ (hs.getD_mem hcls))⟩

/-- No shares have a greater sum of log-likelihood and entropy than the total likelihood has. -/
theorem expected_add_entropy_le (hs : s.Shaped p) {shares : List ℝ} (hlen : shares.length = p.classes)
    (hnonneg : ∀ r ∈ shares, 0 ≤ r) (hsum : shares.sum = 1) (htotal : 0 < p.totalLikelihood s x)
    (hproduces : ∀ cls < p.classes, shares.getD cls 0 ≠ 0 → s.Produces cls x) :
    ∑ cls ∈ range p.classes, shares.getD cls 0 * s.logLikelihoodOf cls x + entropyOf shares ≤
      Real.log (p.totalLikelihood s x) := by
  set total := p.totalLikelihood s x with htotal_def
  have hone : ∑ cls ∈ range p.classes, shares.getD cls 0 = 1 := by rw [← hlen, sum_getD, hsum]
  have hgibbs := sum_mul_log_le (range p.classes) one_pos
    (fun cls _ => getD_nonneg hnonneg cls) hone
    (fun cls hcls => div_nonneg (likelihood_getD_nonneg hs (mem_range.mp hcls) x) htotal.le)
    (by rw [← sum_div]; exact (div_self htotal.ne').le) fun cls hcls hshare =>
      (div_pos (hproduces cls (mem_range.mp hcls) hshare).likelihood_pos htotal).ne'
  have hlog : ∀ cls ∈ range p.classes, shares.getD cls 0 *
      Real.log (likelihood (s.priors.getD cls 0) (s.weights.getD cls []) x / total) =
        shares.getD cls 0 * s.logLikelihoodOf cls x - shares.getD cls 0 * Real.log total := by
    intro cls hcls
    by_cases hshare : shares.getD cls 0 = 0
    · rw [hshare, zero_mul, zero_mul, zero_mul, sub_zero]
    · have hlikely := hproduces cls (mem_range.mp hcls) hshare
      rw [Real.log_div hlikely.likelihood_pos.ne' htotal.ne', hlikely.log_likelihood, mul_sub]
      rfl
  have hentropy : entropyOf shares =
      -∑ cls ∈ range p.classes, shares.getD cls 0 * Real.log (shares.getD cls 0 / 1) := by
    rw [entropyOf, ← sum_map_getD, hlen, ← sum_neg_distrib]
    refine sum_congr rfl ?_
    intro cls _
    rw [Real.negMulLog, div_one, neg_mul]
  rw [sum_congr rfl hlog, sum_sub_distrib, ← sum_mul, hone, one_mul] at hgibbs
  rw [hentropy]
  linarith

/-- The estimated shares reach it. -/
theorem expected_add_entropy_eq (hs : s.Shaped p) {e : Tally.Entry} {shares : List ℝ}
    (h : sharesOf s e = .ok shares) :
    ∑ cls ∈ range p.classes, shares.getD cls 0 * s.logLikelihoodOf cls e.pattern +
      entropyOf shares = Real.log (p.totalLikelihood s e.pattern) := by
  obtain ⟨htotal, rfl⟩ := (sharesOf_eq_ok_iff hs).mp h
  set total := p.totalLikelihood s e.pattern with htotal_def
  have hterm : ∀ cls ∈ range p.classes,
      ((List.range p.classes).map fun cls =>
        likelihood (s.priors.getD cls 0) (s.weights.getD cls []) e.pattern / total).getD cls 0 *
          s.logLikelihoodOf cls e.pattern +
        Real.negMulLog
          (likelihood (s.priors.getD cls 0) (s.weights.getD cls []) e.pattern / total) =
      likelihood (s.priors.getD cls 0) (s.weights.getD cls []) e.pattern * (Real.log total / total) := by
    intro cls hcls
    have hcls := mem_range.mp hcls
    rw [getD_map_range _ _ _ hcls]
    rcases (likelihood_getD_nonneg hs hcls e.pattern).eq_or_lt with hzero | hpos
    · rw [← hzero, zero_div, zero_mul, zero_mul, Real.negMulLog_zero, add_zero]
    · have hlog := ((produces_iff hs hcls).mpr hpos).log_likelihood
      rw [Real.negMulLog, Real.log_div hpos.ne' htotal.ne', hlog, Estimate.logLikelihoodOf]
      field_simp
      ring
  rw [entropyOf, List.map_map, sum_map_range, ← sum_add_distrib]
  refine (sum_congr rfl hterm).trans ?_
  rw [← sum_mul]
  change total * (Real.log total / total) = Real.log total
  field_simp

/-! ## An expectation step -/

/-- The log-likelihood and the entropy together. -/
noncomputable def lowerBound (p : Problem ℝ) (s : Estimate ℝ) : ℝ :=
  p.logLikelihood s + p.entropy s

theorem expect_eq_ok_iff : p.expect s = .ok u ↔
    if p.lambda < 1 then
      List.Forall₂ (fun e row => sharesOf s e = .ok row) p.unlabeled u.shares ∧
        u = { s with shares := u.shares }
    else u = s := by
  rw [expect]
  split
  case isTrue =>
    cases hshares : p.unlabeled.mapM (sharesOf s) with
    | error e =>
        refine ⟨fun h => ?_, fun h => ?_⟩
        · exact absurd h (by simp [bind, Except.bind])
        · exact absurd ((Traversal.mapM_eq_ok_iff.mpr h.1).symm.trans hshares) (by simp)
    | ok rows =>
        rw [← Traversal.mapM_eq_ok_iff, hshares]
        simp only [bind, Except.bind, pure, Except.pure, Except.ok.injEq]
        constructor
        · rintro rfl
          exact ⟨rfl, rfl⟩
        · rintro ⟨hrows, hu⟩
          rw [hu, hrows]
  case isFalse => simp [eq_comm]

theorem lowerBound_eq (hs : s.Shaped p) (hlambda : p.lambda < 1) :
    p.lowerBound s = p.lambda * (if 0 < p.lambda then p.labeledLogLikelihood s else 0) +
      (1 - p.lambda) * ((p.unlabeled.zip s.shares).map fun z => (z.1.count : ℝ) *
        (∑ cls ∈ range p.classes, z.2.getD cls 0 * s.logLikelihoodOf cls z.1.pattern +
          entropyOf z.2)).sum := by
  simp only [lowerBound, logLikelihood, entropy, if_pos hlambda, unlabeledLogLikelihood_eq hs,
    mul_add, List.sum_map_add, add_assoc]

/-- Estimated shares are a probability vector over the classes that produce the pattern. -/
theorem sharesOf_spec (hs : s.Shaped p) {e : Tally.Entry} {shares : List ℝ}
    (h : sharesOf s e = .ok shares) :
    shares.length = p.classes ∧ (∀ r ∈ shares, 0 ≤ r) ∧ shares.sum = 1 ∧
      ∀ cls < p.classes, shares.getD cls 0 ≠ 0 → s.Produces cls e.pattern := by
  obtain ⟨htotal, rfl⟩ := (sharesOf_eq_ok_iff hs).mp h
  refine ⟨by simp, ?_, ?_, ?_⟩
  · intro r hr
    obtain ⟨cls, hcls, rfl⟩ := List.mem_map.mp hr
    exact div_nonneg (likelihood_getD_nonneg hs (List.mem_range.mp hcls) _) htotal.le
  · rw [sum_map_range, ← sum_div]
    exact div_self htotal.ne'
  · intro cls hcls hshare
    rw [getD_map_range _ _ _ hcls] at hshare
    refine (produces_iff hs hcls).mpr (lt_of_le_of_ne (likelihood_getD_nonneg hs hcls _) ?_)
    exact fun hzero => hshare (by rw [← hzero, zero_div])

theorem eq_withShares_of_expect (h : p.expect s = .ok u) : u = s.withShares u.shares := by
  rw [expect_eq_ok_iff] at h
  split at h
  case isTrue => exact h.2
  case isFalse => exact h ▸ rfl

theorem shares_expect (hs : s.Shaped p) (hlambda : p.lambda < 1) (h : p.expect s = .ok u) :
    u.shares.length = p.unlabeled.length ∧
      ∀ row ∈ u.shares, row.length = p.classes ∧ (∀ r ∈ row, 0 ≤ r) ∧ row.sum = 1 := by
  rw [expect_eq_ok_iff, if_pos hlambda] at h
  refine ⟨h.1.length_eq.symm, ?_⟩
  intro row hrow
  obtain ⟨e, -, he⟩ := (Traversal.mem_mapM_iff (Traversal.mapM_eq_ok_iff.mpr h.1) row).mp hrow
  obtain ⟨hlen, hnonneg, hsum, -⟩ := sharesOf_spec hs he
  exact ⟨hlen, hnonneg, hsum⟩

theorem shaped_expect (hs : s.Shaped p) (h : p.expect s = .ok u) : u.Shaped p := by
  by_cases hlambda : p.lambda < 1
  · obtain ⟨hlen, hrows⟩ := shares_expect hs hlambda h
    rw [eq_withShares_of_expect h]
    exact { hs with
      shares := hlen
      shares_row := fun row hrow => (hrows row hrow).1
      shares_nonneg := fun row hrow => (hrows row hrow).2.1 }
  · rw [expect_of_not_lt hlambda] at h
    exact Except.ok.inj h ▸ hs

theorem stochastic_expect (hs : s.Stochastic p) (h : p.expect s = .ok u) : u.Stochastic p := by
  have hu := shaped_expect hs.toShaped h
  by_cases hlambda : p.lambda < 1
  · have hrows := (shares_expect hs.toShaped hlambda h).2
    rw [eq_withShares_of_expect h] at hu ⊢
    exact { hu with
      priors_sum := hs.priors_sum
      rows_sum := hs.rows_sum
      shares_sum := fun row hrow => (hrows row hrow).2.2 }
  · rw [expect_of_not_lt hlambda] at h
    exact Except.ok.inj h ▸ hs

theorem supports_expect (hs : s.Shaped p) (hlabeled : s.SupportsLabeled p)
    (h : p.expect s = .ok u) : u.Supports p := by
  intro cls hcls m hm hamount
  have hproduces : s.Produces cls m.pattern := by
    rcases mem_mass_iff.mp hm with ⟨hlambda, e, he, rfl⟩ | ⟨hlambda, z, hz, rfl⟩
    · exact hlabeled hlambda cls hcls e he
    · rw [expect_eq_ok_iff, if_pos hlambda] at h
      have hshares := (List.forall₂_iff_zip.mp h.1).2 hz
      refine (sharesOf_spec hs hshares).2.2.2 cls hcls ?_
      exact right_ne_zero_of_mul (left_ne_zero_of_mul hamount)
  rw [eq_withShares_of_expect h]
  exact hproduces

/-! ## The observed counts -/

/-- The log-likelihood of what was counted, whatever class an unlabeled pair belongs to. -/
noncomputable def observed (p : Problem ℝ) (s : Estimate ℝ) : ℝ :=
  p.lambda * (if 0 < p.lambda then p.labeledLogLikelihood s else 0) +
    (1 - p.lambda) *
      (p.unlabeled.map fun e => (e.count : ℝ) * Real.log (p.totalLikelihood s e.pattern)).sum

/-- Without unlabeled counts the log-likelihoods are the same. -/
theorem observed_eq_of_lambda_eq_one (hlambda : p.lambda = 1) : p.observed s = p.lowerBound s := by
  simp [observed, lowerBound, logLikelihood, entropy, hlambda]

theorem sum_zip_shares {shares : List (List ℝ)} (hlen : shares.length = p.unlabeled.length)
    (f : Tally.Entry → ℝ) :
    ((p.unlabeled.zip shares).map fun z => f z.1).sum = (p.unlabeled.map f).sum := by
  conv_rhs => rw [← @List.map_fst_zip _ _ p.unlabeled shares hlen.ge, List.map_map]
  rfl

theorem eq_one_of_not_lt (hp : p.Sound) (hlambda : ¬ p.lambda < 1) : p.lambda = 1 :=
  le_antisymm hp.lambda_le_one (not_lt.mp hlambda)

/-- The log-likelihood and the entropy are together at most that of the observed counts. -/
theorem lowerBound_le_observed (hp : p.Sound) (hs : s.Stochastic p) (hsupports : s.Supports p)
    (h : p.expect s = .ok u) : p.lowerBound s ≤ p.observed s := by
  rw [expect_eq_ok_iff] at h
  split at h
  case isFalse hlambda => exact (observed_eq_of_lambda_eq_one (eq_one_of_not_lt hp hlambda)).ge
  case isTrue hlambda =>
    have htotal : ∀ e ∈ p.unlabeled, 0 < p.totalLikelihood s e.pattern := by
      intro e he
      obtain ⟨row, hrow⟩ :=
        Traversal.exists_of_mapM_eq_ok (Traversal.mapM_eq_ok_iff.mpr h.1) he
      exact ((sharesOf_eq_ok_iff hs.toShaped).mp hrow).1
    rw [lowerBound_eq hs.toShaped hlambda, observed, ← sum_zip_shares hs.shares]
    refine add_le_add_right (mul_le_mul_of_nonneg_left ?_ (sub_nonneg.mpr hp.lambda_le_one)) _
    refine List.sum_le_sum fun z hz => mul_le_mul_of_nonneg_left ?_ (Nat.cast_nonneg _)
    obtain ⟨he, hrow⟩ := List.of_mem_zip hz
    exact expected_add_entropy_le hs.toShaped (hs.shares_row _ hrow) (hs.shares_nonneg _ hrow)
      (hs.shares_sum _ hrow) (htotal _ he) fun cls hcls hshare =>
        hsupports.unlabeled hp hlambda hcls hz hshare

/-- An expectation step makes them equal. -/
theorem lowerBound_expect (hp : p.Sound) (hs : s.Stochastic p) (h : p.expect s = .ok u) :
    p.lowerBound u = p.observed s := by
  have hu := stochastic_expect hs h
  rw [expect_eq_ok_iff] at h
  split at h
  case isFalse hlambda =>
    rw [h]
    exact (observed_eq_of_lambda_eq_one (eq_one_of_not_lt hp hlambda)).symm
  case isTrue hlambda =>
    obtain ⟨hrows, hsame⟩ := h
    -- Only the shares differ.
    have hlabeled : p.labeledLogLikelihood u = p.labeledLogLikelihood s := by rw [hsame]; rfl
    have hlog : u.logLikelihoodOf = s.logLikelihoodOf := by rw [hsame]; rfl
    rw [lowerBound_eq hu.toShaped hlambda, observed, hlabeled, hlog, ← sum_zip_shares hu.shares]
    refine congrArg (_ + (1 - p.lambda) * List.sum ·) (List.map_congr_left ?_)
    intro z hz
    rw [expected_add_entropy_eq hs.toShaped ((List.forall₂_iff_zip.mp hrows).2 hz)]

end Problem

end Linkage
