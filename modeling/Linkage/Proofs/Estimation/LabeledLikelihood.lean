import Linkage.Proofs.Estimation.Observed
import Linkage.Proofs.Estimation.Truth

/-
# The likelihood of labeled pairs

The log-likelihood that rows of probabilities give the pairs of a class counts the logarithm of every
level of every pair.  Rows that exclude a counted level are less likely than all others.  For the rest
the pairs can be counted row by row and level by level, and no row gives the counts of its levels a
greater log-likelihood than their own shares.  So the shares of labeled pairs, which are what is
learned from them, are the most likely rows that there are.
-/

namespace Linkage

open Extended (number)
open PatternSpace Finset

/-- Rows of probabilities, one for each comparator. -/
structure ProbabilityRows (levels : List Nat) (rows : List (List ℝ)) : Prop where
  fits : RowsFit levels rows
  nonneg : ∀ row ∈ rows, ∀ w ∈ row, 0 ≤ w
  sum : ∀ row ∈ rows, row.sum = 1

namespace Tally

variable {c : RecordComparator} {t : Tally} {rows : List (List ℝ)}

/-- The log-likelihood that the rows of a class give the pairs of a tally.  The logarithm of 0 is below
all numbers. -/
noncomputable def logLikelihood (t : Tally) (rows : List (List ℝ)) : EReal :=
  (t.entries.map fun e => ((e.count : ℝ) : EReal) * ∑ k ∈ range e.pattern.length,
    ENNReal.log (.ofReal (cell rows k (levelAt e.pattern k)))).sum

/-- Whether rows give weight to every level of every pair. -/
def SupportedBy (t : Tally) (rows : List (List ℝ)) : Prop :=
  ∀ e ∈ t.entries, ∀ k < e.pattern.length, 0 < cell rows k (levelAt e.pattern k)

theorem Filled.length_pattern (h : t.Filled c) {e : Entry} (he : e ∈ t.entries) :
    e.pattern.length = c.levels.length :=
  (h.comparator ▸ (h.sound e he).1).length_eq

theorem logLikelihood_eq_bot (ht : t.Sound) (h : ¬ t.SupportedBy rows) : t.logLikelihood rows = ⊥ := by
  simp only [SupportedBy, not_forall] at h
  obtain ⟨e, he, k, hk, hcell⟩ := h
  have hcount : (0 : ℝ) < e.count := Nat.cast_pos.mpr (ht e he).2
  have hlog : ENNReal.log (.ofReal (cell rows k (levelAt e.pattern k))) = ⊥ := by
    rw [ENNReal.log_ofReal, if_pos (not_lt.mp hcell)]
  refine sum_eq_bot (List.mem_map.mpr ⟨e, he, ?_⟩)
  rw [sum_range_eq_bot hk hlog, EReal.coe_mul_bot_of_pos hcount]

theorem logLikelihood_eq_coe (h : t.Filled c) (hrows : t.SupportedBy rows) :
    t.logLikelihood rows = ((t.masses.map fun m => m.amount * ∑ k ∈ range c.levels.length,
      Real.log (cell rows k (levelAt m.pattern k))).sum : ℝ) := by
  rw [masses, List.map_map, ← coe_sum_map]
  refine congrArg List.sum (List.map_congr_left fun e he => ?_)
  have hlength := h.length_pattern he
  have hlog : ∀ k ∈ range e.pattern.length, ENNReal.log (.ofReal (cell rows k (levelAt e.pattern k))) =
      (Real.log (cell rows k (levelAt e.pattern k)) : EReal) := fun k hk =>
    ENNReal.log_ofReal_of_pos (hrows e he k (mem_range.mp hk))
  rw [sum_congr rfl hlog, coe_sum_range, hlength, ← EReal.coe_mul]
  rfl

theorem probabilityRows_shares (h : t.Filled c) : ProbabilityRows c.levels t.shares :=
  ⟨rowsFit_shares h, shares_nonneg h, shares_sum h⟩

theorem supportedBy_shares (h : t.Filled c) : t.SupportedBy t.shares := by
  intro e he k hk
  exact cell_shares_pos h he (h.length_pattern he ▸ hk)

/-- No rows give the pairs of a tally a greater log-likelihood than their shares. -/
theorem logLikelihood_le_shares (h : t.Filled c) (hrows : ProbabilityRows c.levels rows) :
    t.logLikelihood rows ≤ t.logLikelihood t.shares := by
  by_cases hsupported : t.SupportedBy rows
  · have hfits := masses_fits h
    rw [logLikelihood_eq_coe h hsupported, logLikelihood_eq_coe h (supportedBy_shares h),
      EReal.coe_le_coe_iff, shares_eq h]
    refine sum_mul_logs_le (fun m hm => (hfits m hm).1) (fun m hm => (hfits m hm).2)
      (total_masses_pos h) hrows.fits hrows.nonneg hrows.sum ?_
    intro m hm _ k hk
    obtain ⟨e, he, rfl⟩ := List.mem_map.mp hm
    exact hsupported e he k ((hfits _ hm).1.length_eq ▸ hk)
  · rw [logLikelihood_eq_bot h.sound hsupported]
    exact bot_le

theorem natCast_countOfAll (t : Tally) (p : Entry → Bool) :
    (t.countOfAll p : ℝ) = (t.entries.map fun e => if p e then (e.count : ℝ) else 0).sum := by
  rw [countOfAll]
  induction t.entries with
  | nil => exact Nat.cast_zero
  | cons e entries ih =>
      rw [List.map_cons, List.sum_cons, ← ih, List.filter_cons]
      by_cases hp : p e = true
      · simp [hp]
      · simp [hp]

theorem cell_shares (h : t.Filled c) {k level : Nat} (hk : k < c.levels.length)
    (hlevel : level < c.levels.getD k 0) : cell t.shares k level =
      t.countOfAll (fun e => levelAt e.pattern k == level) / t.total := by
  rw [shares_eq h, Mass.cell_normalize, total_masses,
    Mass.cell_table (fun m hm => (masses_fits h m hm).1) hk hlevel, natCast_countOfAll, masses,
    List.map_map]
  simp only [beq_iff_eq]
  rfl

end Tally

/-- What is learned from labeled pairs is the estimate of the greatest likelihood.  The weights of a
class are the shares of its pairs that have the levels, and no other rows of probabilities give its
pairs a greater log-likelihood. -/
theorem learnSupervised_maximizes {labeled : List Tally} {matchCount : Nat}
    (hlabeled : Tally.Consistent labeled) {m : Model Extended}
    (hm : learnSupervised matchCount labeled = .ok m) :
    ∃ fitted : Weights ℝ, m.weights = fitted.map extendRows ∧ fitted.length = labeled.length ∧
      ∀ cls (hcls : cls < labeled.length),
        ProbabilityRows m.comparator.levels (fitted.getD cls []) ∧
        (∀ rows, ProbabilityRows m.comparator.levels rows →
          labeled[cls].logLikelihood rows ≤ labeled[cls].logLikelihood (fitted.getD cls [])) ∧
        ∀ k < m.comparator.levels.length, ∀ level < m.comparator.levels.getD k 0,
          m.weight cls k level = .ok (number
            (labeled[cls].countOfAll (fun e => levelAt e.pattern k == level) / labeled[cls].total)) := by
  obtain ⟨c, hfilled, hmake⟩ := make_of_learnSupervised hlabeled hm
  obtain ⟨-, -, rfl⟩ := Model.make_eq_ok_iff.mp hmake
  have hweights := Tally.map_shares_extend hfilled
  refine ⟨labeled.map Tally.shares, hweights, List.length_map _, ?_⟩
  intro cls hcls
  have hclass := hfilled _ (List.getElem_mem hcls)
  have hrows : (labeled.map fun t => (t.shares : List (List ℝ))).getD cls [] = labeled[cls].shares := by
    rw [List.getD_eq_getElem _ _ (by rwa [List.length_map]), List.getElem_map]
  rw [hrows]
  refine ⟨Tally.probabilityRows_shares hclass, fun rows => Tally.logLikelihood_le_shares hclass, ?_⟩
  intro k hk level hlevel
  have hentry := (Tally.rowsFit_shares hclass).entry hk hlevel
  rw [Tally.cell_shares hclass hk hlevel] at hentry
  rw [Model.weight]
  simp only [hweights, List.map_map, List.getElem?_map, List.getElem?_eq_getElem hcls, Option.map_some,
    Option.bind_some, Function.comp_apply, hentry]

/-- Of four pairs of the same person three agree, and even chances explain them less well. -/
theorem learnSupervised_maximizes_firstNames :
    Tally.Consistent [FirstNames.same, FirstNames.different] ∧
      ∃ (m : Model Extended) (fitted : Weights ℝ),
        learnSupervised 1 [FirstNames.same, FirstNames.different] = .ok m ∧
        m.weights = fitted.map extendRows ∧
        FirstNames.same.logLikelihood [[1 / 2, 1 / 2]] ≤
          FirstNames.same.logLikelihood (fitted.getD 0 []) ∧
        m.weight 0 0 1 = .ok (number (3 / 4)) ∧ m.weight 1 0 1 = .ok (number 0) := by
  have hfilled : ∀ t ∈ [FirstNames.same, FirstNames.different], t.Filled FirstNames.comparator :=
    fun t ht => FirstNames.filled t (List.mem_cons_of_mem _ ht)
  have hconsistent := Tally.Consistent.of_filled hfilled
  obtain ⟨hm, -⟩ := learnSupervised_eq_ok hfilled (rfl : checkClasses 2 1 = .ok ())
  obtain ⟨fitted, hweights, -, hclasses⟩ := learnSupervised_maximizes hconsistent hm
  obtain ⟨-, hbest, hshares⟩ := hclasses 0 Nat.two_pos
  obtain ⟨-, -, hshares'⟩ := hclasses 1 Nat.one_lt_two
  have heven : ProbabilityRows FirstNames.comparator.levels [[1 / 2, 1 / 2]] := by
    refine ⟨.cons rfl .nil, ?_, ?_⟩ <;> norm_num
  have hthree : FirstNames.same.countOfAll (fun e => levelAt e.pattern 0 == 1) = 3 := rfl
  have hnone : FirstNames.different.countOfAll (fun e => levelAt e.pattern 0 == 1) = 0 := rfl
  have hfour : FirstNames.same.total = 4 := rfl
  refine ⟨hconsistent, _, fitted, hm, hweights, hbest _ heven, ?_, ?_⟩
  · refine (hshares 0 Nat.one_pos 1 Nat.one_lt_two).trans ?_
    simp [hthree, hfour]
  · refine (hshares' 0 Nat.one_pos 1 Nat.one_lt_two).trans ?_
    simp [hnone]

end Linkage
