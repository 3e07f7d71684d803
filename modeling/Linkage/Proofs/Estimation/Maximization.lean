import Linkage.Proofs.Estimation.Table
import Mathlib.Algebra.BigOperators.Field
import Mathlib.Algebra.Order.BigOperators.Group.Finset
import Mathlib.Tactic.FieldSimp
import Mathlib.Tactic.Linarith

/-
# Maximization

Of all distributions the shares of some amounts give these amounts the greatest log-likelihood: this
is Gibbs' inequality, term by term the bound `log x ≤ x - 1`.  A maximization step takes the shares
of the totals for priors and the shares of the cells for weights, so it is best at the priors and
best at every row.
-/

namespace Linkage

open PatternSpace Finset

/-- No distribution gives amounts a greater log-likelihood than their own shares. -/
theorem sum_mul_log_le {ι : Type} (t : Finset ι) {amount q : ι → ℝ} {total : ℝ} (htotal : 0 < total)
    (hamount : ∀ i ∈ t, 0 ≤ amount i) (hsum : ∑ i ∈ t, amount i = total)
    (hq : ∀ i ∈ t, 0 ≤ q i) (hqsum : ∑ i ∈ t, q i ≤ 1)
    (hsupport : ∀ i ∈ t, amount i ≠ 0 → q i ≠ 0) :
    ∑ i ∈ t, amount i * Real.log (q i) ≤ ∑ i ∈ t, amount i * Real.log (amount i / total) := by
  have hterm : ∀ i ∈ t, amount i * Real.log (q i) ≤
      amount i * Real.log (amount i / total) + (q i * total - amount i) := by
    intro i hi
    rcases (hamount i hi).eq_or_lt with hzero | hpos
    · rw [← hzero, zero_mul, zero_mul, zero_add, sub_zero]
      exact mul_nonneg (hq i hi) htotal.le
    · have hqpos : 0 < q i := lt_of_le_of_ne (hq i hi) (hsupport i hi hpos.ne').symm
      have hratio : 0 < amount i / total := div_pos hpos htotal
      have hlog := Real.log_le_sub_one_of_pos (div_pos hqpos hratio)
      rw [Real.log_div hqpos.ne' hratio.ne'] at hlog
      have hmul := mul_le_mul_of_nonneg_left hlog hpos.le
      have hcancel : amount i * (q i / (amount i / total) - 1) = q i * total - amount i := by
        field_simp
      linarith
  calc ∑ i ∈ t, amount i * Real.log (q i)
      ≤ ∑ i ∈ t, (amount i * Real.log (amount i / total) + (q i * total - amount i)) :=
        sum_le_sum hterm
    _ = ∑ i ∈ t, amount i * Real.log (amount i / total) + ((∑ i ∈ t, q i) * total - total) := by
        rw [sum_add_distrib, sum_sub_distrib, sum_mul, hsum]
    _ ≤ ∑ i ∈ t, amount i * Real.log (amount i / total) := by
        have := mul_le_of_le_one_left htotal.le hqsum
        linarith

section Class

variable {levels : List Nat} {rows : List (List ℝ)} {ms : List (Mass ℝ)} {x : Pattern}

theorem sum_zip_rows (h : RowsFit levels rows) (hx : Fits levels x) (f : ℝ → ℝ) :
    ((rows.zip x).map fun y => f (y.1.getD y.2 0)).sum =
      ∑ k ∈ range levels.length, f (cell rows k (levelAt x k)) := by
  have hlen : rows.length = x.length := h.length_eq.trans hx.length_eq.symm
  rw [sum_zip_eq rows x [] 0 (fun row level => f (row.getD level 0)) hlen.le, h.length_eq]
  rfl

theorem likely_iff {prior : ℝ} (h : RowsFit levels rows) (hx : Fits levels x) :
    Problem.Likely prior rows x ↔
      0 < prior ∧ ∀ k < levels.length, 0 < cell rows k (levelAt x k) := by
  have hlen : rows.length = x.length := h.length_eq.trans hx.length_eq.symm
  refine and_congr_right fun _ => ⟨?_, ?_⟩
  · intro hcells k hk
    have hrow : k < rows.length := h.length_eq ▸ hk
    have hlevel : k < x.length := hlen ▸ hrow
    have hzip : k < (rows.zip x).length := by rw [List.length_zip]; omega
    have hmem : (rows[k], x[k]) ∈ rows.zip x := List.getElem_zip (h := hzip) ▸ List.getElem_mem hzip
    rw [cell, levelAt, List.getD_eq_getElem _ _ hrow, List.getD_eq_getElem _ _ hlevel]
    exact hcells _ hmem
  · intro hcells y hy
    obtain ⟨k, hzip, rfl⟩ := List.mem_iff_getElem.mp hy
    have hrow : k < rows.length := by rw [List.length_zip] at hzip; omega
    have hlevel : k < x.length := hlen ▸ hrow
    have hcell := hcells k (h.length_eq ▸ hrow)
    rw [cell, levelAt, List.getD_eq_getElem _ _ hrow, List.getD_eq_getElem _ _ hlevel] at hcell
    simpa only [List.getElem_zip] using hcell

theorem cell_nonneg (h : ∀ row ∈ rows, ∀ w ∈ row, 0 ≤ w) (k level : Nat) :
    0 ≤ cell rows k level := by
  refine getD_nonneg ?_ level
  intro w hw
  rcases lt_or_ge k rows.length with hk | hk
  · rw [List.getD_eq_getElem _ _ hk] at hw
    exact h _ (List.getElem_mem hk) w hw
  · rw [List.getD_eq_default _ _ hk] at hw
    exact absurd hw List.not_mem_nil

theorem sum_row (h : RowsFit levels rows) {k : Nat} (hk : k < levels.length) :
    ∑ level ∈ range (levels.getD k 0), cell rows k level = (rows.getD k []).sum := by
  rw [← h.row_length hk]
  exact sum_getD _

theorem normalize_table_nonneg (hms : ∀ m ∈ ms, Fits levels m.pattern ∧ 0 ≤ m.amount) {total : ℝ}
    (htotal : 0 ≤ total) :
    ∀ row ∈ Mass.normalize (Mass.table levels ms) total, ∀ w ∈ row, 0 ≤ w := by
  intro row hrow w hw
  obtain ⟨k, hk, -, hcell⟩ :=
    (rowsFit_normalize_table (fun m hm => (hms m hm).1) total).exists_cell hrow
  obtain ⟨level, hlevel, rfl⟩ := hcell w hw
  rw [Mass.cell_normalize]
  exact div_nonneg (Mass.cell_table_nonneg (fun m hm => (hms m hm).1) (fun m hm => (hms m hm).2)
    hk hlevel) htotal

theorem normalize_table_sum (hms : ∀ m ∈ ms, Fits levels m.pattern) (htotal : 0 < Mass.total ms) :
    ∀ row ∈ Mass.normalize (Mass.table levels ms) (Mass.total ms), row.sum = 1 := by
  intro row hrow
  have hfit := rowsFit_normalize_table hms (Mass.total ms)
  obtain ⟨k, hk, rfl, -⟩ := hfit.exists_cell hrow
  rw [← sum_row hfit hk]
  simp only [Mass.cell_normalize]
  rw [← sum_div, Mass.sum_cell hms hk]
  exact div_self htotal.ne'

/-- No rows give the amounts of a class a greater log-likelihood than the shares of its cells. -/
theorem sum_mul_logs_le (hms : ∀ m ∈ ms, Fits levels m.pattern) (hamount : ∀ m ∈ ms, 0 ≤ m.amount)
    (htotal : 0 < Mass.total ms) (hrows : RowsFit levels rows)
    (hnonneg : ∀ row ∈ rows, ∀ w ∈ row, 0 ≤ w) (hsum : ∀ row ∈ rows, row.sum = 1)
    (hsupport : ∀ m ∈ ms, m.amount ≠ 0 →
      ∀ k < levels.length, 0 < cell rows k (levelAt m.pattern k)) :
    (ms.map fun m => m.amount *
        ∑ k ∈ range levels.length, Real.log (cell rows k (levelAt m.pattern k))).sum ≤
      (ms.map fun m => m.amount * ∑ k ∈ range levels.length, Real.log
        (cell (Mass.normalize (Mass.table levels ms) (Mass.total ms)) k (levelAt m.pattern k))).sum := by
  simp only [mul_sum, sum_map_sum]
  refine sum_le_sum ?_
  intro k hk
  have hk := mem_range.mp hk
  rw [← Mass.sum_cell_mul hms hk fun level => Real.log (cell rows k level),
    ← Mass.sum_cell_mul hms hk fun level =>
      Real.log (cell (Mass.normalize (Mass.table levels ms) (Mass.total ms)) k level)]
  simp only [Mass.cell_normalize]
  refine sum_mul_log_le _ htotal (fun level hlevel => ?_) (Mass.sum_cell hms hk)
    (fun level _ => cell_nonneg hnonneg k level) ?_ ?_
  · exact Mass.cell_table_nonneg hms hamount hk (mem_range.mp hlevel)
  · have hrow : k < rows.length := hrows.length_eq ▸ hk
    rw [sum_row hrows hk, List.getD_eq_getElem _ _ hrow, hsum _ (List.getElem_mem hrow)]
  · -- A level without weight is in no pattern of which there is an amount.
    intro level hlevel
    refine mt ?_
    intro hzero
    rw [Mass.cell_table hms hk (mem_range.mp hlevel)]
    refine List.sum_eq_zero ?_
    intro a ha
    obtain ⟨m, hm, rfl⟩ := List.mem_map.mp ha
    split
    case isTrue hlevel =>
      by_contra hne
      have hpos := hsupport m hm hne k hk
      rw [hlevel, hzero] at hpos
      exact lt_irrefl 0 hpos
    case isFalse => rfl

end Class

theorem Estimate.Shaped.getD_mem {p : Problem ℝ} {s : Estimate ℝ} {cls : Nat} (h : s.Shaped p)
    (hcls : cls < p.classes) : s.weights.getD cls [] ∈ s.weights := by
  rw [List.getD_eq_getElem _ _ (h.weights ▸ hcls)]
  exact List.getElem_mem _

theorem Estimate.Shaped.rows_getD {p : Problem ℝ} {s : Estimate ℝ} {cls : Nat} (h : s.Shaped p)
    (hcls : cls < p.classes) : RowsFit p.levels (s.weights.getD cls []) :=
  h.rows _ (h.getD_mem hcls)

namespace Problem

variable {p : Problem ℝ} {s : Estimate ℝ} {cls : Nat}

theorem mass_fits (hp : p.Sound) (hs : s.Shaped p) :
    ∀ m ∈ p.mass s cls, Fits p.levels m.pattern ∧ 0 ≤ m.amount := by
  intro m hm
  rcases mem_mass_iff.mp hm with ⟨-, e, he, rfl⟩ | ⟨-, z, hz, rfl⟩
  · exact ⟨(hp.labeled_getD he).1, mul_nonneg hp.lambda_nonneg (Nat.cast_nonneg _)⟩
  · obtain ⟨he, hshares⟩ := List.of_mem_zip hz
    refine ⟨(hp.unlabeled z.1 he).1, ?_⟩
    refine mul_nonneg (mul_nonneg (sub_nonneg.mpr hp.lambda_le_one) ?_) (Nat.cast_nonneg _)
    exact getD_nonneg (hs.shares_nonneg z.2 hshares) cls

noncomputable def total (p : Problem ℝ) (s : Estimate ℝ) (cls : Nat) : ℝ :=
  Mass.total (p.mass s cls)

theorem total_nonneg (hp : p.Sound) (hs : s.Shaped p) : 0 ≤ p.total s cls := by
  rw [total, Mass.total_eq]
  refine List.sum_nonneg ?_
  intro a ha
  obtain ⟨m, hm, rfl⟩ := List.mem_map.mp ha
  exact (mass_fits hp hs m hm).2

theorem sum_total_pos (hclasses : 0 < p.classes) (htotal : ∀ cls < p.classes, 0 < p.total s cls) :
    0 < ∑ cls ∈ range p.classes, p.total s cls :=
  sum_pos (fun cls hcls => htotal cls (mem_range.mp hcls)) ⟨0, mem_range.mpr hclasses⟩

theorem sum_map_range (n : Nat) (f : Nat → ℝ) : ((List.range n).map f).sum = ∑ i ∈ range n, f i := rfl

theorem getD_map_range {β : Type} (n : Nat) (f : Nat → β) (d : β) {i : Nat} (hi : i < n) :
    ((List.range n).map f).getD i d = f i := by
  rw [List.getD_eq_getElem _ _ (by simpa using hi), List.getElem_map, List.getElem_range]

theorem sum_totals (p : Problem ℝ) (s : Estimate ℝ) :
    Arithmetic.sum ((List.range p.classes).map fun cls => Mass.total (p.mass s cls)) =
      ∑ cls ∈ range p.classes, p.total s cls :=
  sum_eq _

theorem prior_maximum (p : Problem ℝ) (s : Estimate ℝ) (h : cls < p.classes) :
    (p.maximum s).priors.getD cls 0 = p.total s cls / ∑ j ∈ range p.classes, p.total s j := by
  rw [maximum, getD_map_range _ _ _ h, sum_totals, total]

theorem rows_maximum (p : Problem ℝ) (s : Estimate ℝ) (h : cls < p.classes) :
    (p.maximum s).weights.getD cls [] =
      Mass.normalize (Mass.table p.levels (p.mass s cls)) (p.total s cls) := by
  rw [maximum, getD_map_range _ _ _ h, total]

theorem mass_maximum : p.mass (p.maximum s) cls = p.mass s cls := rfl

theorem mem_weights_maximum {rows : List (List ℝ)} (h : rows ∈ (p.maximum s).weights) :
    ∃ cls < p.classes,
      rows = Mass.normalize (Mass.table p.levels (p.mass s cls)) (p.total s cls) := by
  obtain ⟨cls, hcls, rfl⟩ := List.mem_map.mp h
  exact ⟨cls, List.mem_range.mp hcls, rfl⟩

theorem rowsFit_maximum (hp : p.Sound) (hs : s.Shaped p) (cls : Nat) : RowsFit p.levels
    (Mass.normalize (Mass.table p.levels (p.mass s cls)) (p.total s cls)) :=
  rowsFit_normalize_table (fun m hm => (mass_fits hp hs m hm).1) _

theorem shaped_maximum (hp : p.Sound) (hs : s.Shaped p) : (p.maximum s).Shaped p where
  priors := by simp [maximum]
  priors_nonneg := by
    intro w hw
    obtain ⟨cls, -, rfl⟩ := List.mem_map.mp hw
    rw [sum_totals]
    exact div_nonneg (total_nonneg hp hs) (sum_nonneg fun _ _ => total_nonneg hp hs)
  weights := by simp [maximum]
  rows := by
    intro rows h
    obtain ⟨cls, -, rfl⟩ := mem_weights_maximum h
    exact rowsFit_maximum hp hs cls
  rows_nonneg := by
    intro rows h
    obtain ⟨cls, -, rfl⟩ := mem_weights_maximum h
    exact normalize_table_nonneg (mass_fits hp hs) (total_nonneg hp hs)
  shares := hs.shares
  shares_row := hs.shares_row
  shares_nonneg := hs.shares_nonneg

theorem stochastic_maximum (hp : p.Sound) (hs : s.Shaped p)
    (hshares : ∀ row ∈ s.shares, row.sum = 1) (hclasses : 0 < p.classes)
    (htotal : ∀ cls < p.classes, 0 < p.total s cls) : (p.maximum s).Stochastic p where
  toShaped := shaped_maximum hp hs
  priors_sum := by
    rw [maximum, sum_map_range, sum_totals, ← sum_div]
    exact div_self (sum_total_pos hclasses htotal).ne'
  rows_sum := by
    intro rows h
    obtain ⟨cls, hcls, rfl⟩ := mem_weights_maximum h
    exact normalize_table_sum (fun m hm => (mass_fits hp hs m hm).1) (htotal cls hcls)
  shares_sum := hshares

theorem supports_maximum (hp : p.Sound) (hs : s.Shaped p)
    (htotal : ∀ cls < p.classes, 0 < p.total s cls) : (p.maximum s).Supports p := by
  intro cls hcls m hm hamount
  have hm' : m ∈ p.mass s cls := hm
  have hms : ∀ m ∈ p.mass s cls, Fits p.levels m.pattern := fun m hm => (mass_fits hp hs m hm).1
  have hnonneg : ∀ m ∈ p.mass s cls, 0 ≤ m.amount := fun m hm => (mass_fits hp hs m hm).2
  have hpos : 0 < m.amount := lt_of_le_of_ne (hnonneg m hm') hamount.symm
  have hall := sum_total_pos (Nat.zero_lt_of_lt hcls) htotal
  have hfit := rowsFit_maximum hp hs cls
  rw [Estimate.Produces, prior_maximum p s hcls, rows_maximum p s hcls,
    likely_iff hfit (hms m hm')]
  refine ⟨div_pos (htotal cls hcls) hall, ?_⟩
  intro k hk
  rw [Mass.cell_normalize]
  exact div_pos (hpos.trans_le (Mass.amount_le_cell hms hnonneg hm' hk)) (htotal cls hcls)

/-- The log-likelihood of the amounts of a class: of the priors, and of the rows. -/
theorem sum_mul_logLikelihoodOf (hp : p.Sound) (hs : s.Shaped p) {u : Estimate ℝ}
    (hu : u.Shaped p) (hcls : cls < p.classes) :
    ((p.mass s cls).map fun m => m.amount * u.logLikelihoodOf cls m.pattern).sum =
      p.total s cls * Real.log (u.priors.getD cls 0) +
        ((p.mass s cls).map fun m => m.amount * ∑ k ∈ range p.levels.length,
          Real.log (cell (u.weights.getD cls []) k (levelAt m.pattern k))).sum := by
  have hterm : ∀ m ∈ p.mass s cls, m.amount * u.logLikelihoodOf cls m.pattern =
      m.amount * Real.log (u.priors.getD cls 0) + m.amount * ∑ k ∈ range p.levels.length,
        Real.log (cell (u.weights.getD cls []) k (levelAt m.pattern k)) := by
    intro m hm
    rw [Estimate.logLikelihoodOf, logLikelihoodIn_eq,
      sum_zip_rows (hu.rows_getD hcls) (mass_fits hp hs m hm).1, mul_add]
  rw [List.map_congr_left hterm, List.sum_map_add, List.sum_map_mul_right, total, Mass.total_eq]

/-- A maximization step does not decrease the log-likelihood. -/
theorem logLikelihood_le_maximum (hp : p.Sound) (hs : s.Stochastic p) (hsupports : s.Supports p)
    (hclasses : 0 < p.classes) (htotal : ∀ cls < p.classes, 0 < p.total s cls) :
    p.logLikelihood s ≤ p.logLikelihood (p.maximum s) := by
  have hshape := hs.toShaped
  have hmax := (stochastic_maximum hp hshape hs.shares_sum hclasses htotal).toShaped
  have hall := sum_total_pos hclasses htotal
  rw [logLikelihood_eq_sum hp hshape, logLikelihood_eq_sum hp hmax]
  simp only [mass_maximum]
  rw [sum_congr rfl fun cls hcls => sum_mul_logLikelihoodOf hp hshape hshape (mem_range.mp hcls),
    sum_congr rfl fun cls hcls => sum_mul_logLikelihoodOf hp hshape hmax (mem_range.mp hcls),
    sum_add_distrib, sum_add_distrib]
  refine add_le_add ?_ (sum_le_sum ?_)
  · have hgibbs := sum_mul_log_le (range p.classes) hall
      (fun _ _ => total_nonneg hp hshape) rfl
      (fun cls _ => getD_nonneg hs.priors_nonneg cls)
      (by rw [← hs.priors, sum_getD, hs.priors_sum]) fun cls hcls htot => ?_
    · refine hgibbs.trans_eq (sum_congr rfl ?_)
      intro cls hcls
      rw [prior_maximum p s (mem_range.mp hcls)]
    · -- A class with a total has an amount of something, which it produces.
      refine mt (fun hprior => ?_) htot
      rw [total, Mass.total_eq]
      refine List.sum_eq_zero ?_
      intro a ha
      obtain ⟨m, hm, rfl⟩ := List.mem_map.mp ha
      by_contra hamount
      exact (hsupports cls (mem_range.mp hcls) m hm hamount).1.ne' hprior
  · intro cls hcls
    have hcls := mem_range.mp hcls
    rw [rows_maximum p s hcls]
    refine sum_mul_logs_le (fun m hm => (mass_fits hp hshape m hm).1)
      (fun m hm => (mass_fits hp hshape m hm).2) (htotal cls hcls) (hshape.rows_getD hcls)
      (hs.rows_nonneg _ (hshape.getD_mem hcls)) (hs.rows_sum _ (hshape.getD_mem hcls)) ?_
    intro m hm hamount
    exact ((likely_iff (hshape.rows_getD hcls) (mass_fits hp hshape m hm).1).mp
      (hsupports cls hcls m hm hamount)).2

end Problem

end Linkage
