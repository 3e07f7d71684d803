import Linkage.Proofs.Estimation.Extension
import Linkage.Proofs.Join.Tally
import Linkage.Proofs.Mixture.Weights
import Mathlib.Algebra.BigOperators.Group.Finset.Basic
import Mathlib.Algebra.BigOperators.Ring.Finset
import Mathlib.Tactic.Ring

/-
# The likelihood of what was counted

A class produces a pattern if its prior and the weights of the pattern's levels are positive.  Then
the likelihood of the pattern is positive, and the logarithm of this product is the sum of the
logarithms.  An estimate supports its problem if every class produces the patterns of which it holds
an amount.  The log-likelihood of such an estimate is a real number.
-/

namespace Linkage

open Extended (number)
open PatternSpace

namespace Problem

/-! ## Patterns that a class produces -/

section Likely

variable {prior : ℝ} {rows : List (List ℝ)} {x : Pattern}

/-- Whether a class with this prior and these rows produces a pattern. -/
def Likely (prior : ℝ) (rows : List (List ℝ)) (x : Pattern) : Prop :=
  0 < prior ∧ ∀ y ∈ rows.zip x, 0 < y.1.getD y.2 0

theorem likelihood_eq (prior : ℝ) (rows : List (List ℝ)) (x : Pattern) :
    likelihood prior rows x = prior * ((rows.zip x).map fun y => y.1.getD y.2 0).prod :=
  foldl_mul_eq _ _ prior

theorem logLikelihoodIn_eq (prior : ℝ) (rows : List (List ℝ)) (x : Pattern) :
    logLikelihoodIn prior rows x =
      Real.log prior + ((rows.zip x).map fun y => Real.log (y.1.getD y.2 0)).sum :=
  foldl_add_eq _ _ (Real.log prior)

theorem Likely.likelihood_pos (h : Likely prior rows x) : 0 < likelihood prior rows x := by
  rw [likelihood_eq]
  refine mul_pos h.1 (List.prod_pos ?_)
  intro w hw
  obtain ⟨y, hy, rfl⟩ := List.mem_map.mp hw
  exact h.2 y hy

theorem likelihood_nonneg (hprior : 0 ≤ prior) (hrows : ∀ row ∈ rows, ∀ w ∈ row, 0 ≤ w) :
    0 ≤ likelihood prior rows x := by
  rw [likelihood_eq]
  refine mul_nonneg hprior (List.prod_nonneg ?_)
  intro w hw
  obtain ⟨y, hy, rfl⟩ := List.mem_map.mp hw
  exact getD_nonneg (hrows y.1 (List.of_mem_zip hy).1) y.2

theorem likely_of_likelihood_pos (hprior : 0 ≤ prior) (hrows : ∀ row ∈ rows, ∀ w ∈ row, 0 ≤ w)
    (h : 0 < likelihood prior rows x) : Likely prior rows x := by
  rw [likelihood_eq] at h
  refine ⟨lt_of_le_of_ne hprior ?_, fun y hy => lt_of_le_of_ne ?_ ?_⟩
  · rintro rfl
    simp at h
  · exact getD_nonneg (hrows y.1 (List.of_mem_zip hy).1) y.2
  · intro hzero
    have hprod : ((rows.zip x).map fun y => y.1.getD y.2 0).prod = 0 :=
      List.prod_eq_zero (List.mem_map.mpr ⟨y, hy, hzero.symm⟩)
    rw [hprod, mul_zero] at h
    exact lt_irrefl 0 h

theorem Likely.log_likelihood (h : Likely prior rows x) :
    Real.log (likelihood prior rows x) = logLikelihoodIn prior rows x := by
  have hfactors : ∀ w ∈ (rows.zip x).map fun y => y.1.getD y.2 0, w ≠ 0 := by
    intro w hw
    obtain ⟨y, hy, rfl⟩ := List.mem_map.mp hw
    exact (h.2 y hy).ne'
  rw [likelihood_eq, logLikelihoodIn_eq, Real.log_mul h.1.ne' (List.prod_ne_zero fun h => hfactors 0 h rfl),
    Real.log_list_prod hfactors, List.map_map]
  rfl

theorem logLikelihoodIn_extend (h : Likely prior rows x) :
    logLikelihoodIn (number prior) (extendRows rows) x = number (logLikelihoodIn prior rows x) := by
  rw [logLikelihoodIn, logLikelihoodIn, extendRows, List.zip_map_left, List.foldl_map,
    Extended.log_number h.1]
  refine foldl_number _ _ _ ?_ _
  intro a y hy
  simp only [Prod.map, id, getD_map_number, Extended.log_number (h.2 y hy), Extended.number_add]
  rfl

end Likely

end Problem

/-! ## Estimates that support their problem -/

/-- Problems as tallies pose them: patterns of the comparators that occur, of a class each if they
are labeled. -/
structure Problem.Sound (p : Problem ℝ) : Prop where
  lambda_nonneg : 0 ≤ p.lambda
  lambda_le_one : p.lambda ≤ 1
  classes : p.labeled.length ≤ p.classes
  unlabeled : ∀ e ∈ p.unlabeled, Fits p.levels e.pattern ∧ 0 < e.count
  labeled : ∀ entries ∈ p.labeled, ∀ e ∈ entries, Fits p.levels e.pattern ∧ 0 < e.count

theorem Problem.sound_of_tallies {c : RecordComparator} {classes : Nat} {unlabeled : Tally}
    {labeled : List Tally} {lambda : ℝ}
    (htallies : ∀ t ∈ unlabeled :: labeled, t.comparator = c ∧ t.Sound)
    (hclasses : labeled.length ≤ classes) (hlambda : 0 ≤ lambda ∧ lambda ≤ 1) :
    (⟨c.levels, classes, unlabeled.entries, labeled.map Tally.entries, lambda⟩ :
      Problem ℝ).Sound where
  lambda_nonneg := hlambda.1
  lambda_le_one := hlambda.2
  classes := by rwa [List.length_map]
  unlabeled := by
    obtain ⟨rfl, hsound⟩ := htallies unlabeled List.mem_cons_self
    exact hsound
  labeled := by
    intro entries hentries
    obtain ⟨t, ht, rfl⟩ := List.mem_map.mp hentries
    obtain ⟨rfl, hsound⟩ := htallies t (List.mem_cons_of_mem _ ht)
    exact hsound

namespace Estimate

/-- An estimate of the right shape for a problem, without negative numbers. -/
structure Shaped (p : Problem ℝ) (s : Estimate ℝ) : Prop where
  priors : s.priors.length = p.classes
  priors_nonneg : ∀ w ∈ s.priors, 0 ≤ w
  weights : s.weights.length = p.classes
  rows : ∀ rows ∈ s.weights, RowsFit p.levels rows
  rows_nonneg : ∀ rows ∈ s.weights, ∀ row ∈ rows, ∀ w ∈ row, 0 ≤ w
  shares : s.shares.length = p.unlabeled.length
  shares_row : ∀ row ∈ s.shares, row.length = p.classes
  shares_nonneg : ∀ row ∈ s.shares, ∀ w ∈ row, 0 ≤ w

/-- An estimate of probability vectors. -/
structure Stochastic (p : Problem ℝ) (s : Estimate ℝ) : Prop extends Shaped p s where
  priors_sum : s.priors.sum = 1
  rows_sum : ∀ rows ∈ s.weights, ∀ row ∈ rows, row.sum = 1
  shares_sum : ∀ row ∈ s.shares, row.sum = 1

/-- Whether a class of an estimate produces a pattern. -/
def Produces (s : Estimate ℝ) (cls : Nat) (x : Pattern) : Prop :=
  Problem.Likely (s.priors.getD cls 0) (s.weights.getD cls []) x

/-- The logarithm of the likelihood of a pattern in a class of an estimate. -/
noncomputable def logLikelihoodOf (s : Estimate ℝ) (cls : Nat) (x : Pattern) : ℝ :=
  Problem.logLikelihoodIn (s.priors.getD cls 0) (s.weights.getD cls []) x

/-- Every class produces its labeled patterns, if these count. -/
def SupportsLabeled (p : Problem ℝ) (s : Estimate ℝ) : Prop :=
  0 < p.lambda → ∀ cls < p.classes, ∀ e ∈ p.labeled.getD cls [], s.Produces cls e.pattern

/-- Every class produces the patterns of which it holds an amount. -/
def Supports (p : Problem ℝ) (s : Estimate ℝ) : Prop :=
  ∀ cls < p.classes, ∀ m ∈ p.mass s cls, m.amount ≠ 0 → s.Produces cls m.pattern

end Estimate

namespace Problem

variable {p : Problem ℝ} {s : Estimate ℝ} {cls : Nat}

theorem Sound.labeled_getD (hp : p.Sound) {e : Tally.Entry} (he : e ∈ p.labeled.getD cls []) :
    Fits p.levels e.pattern ∧ 0 < e.count := by
  rcases lt_or_ge cls p.labeled.length with hcls | hcls
  · rw [List.getD_eq_getElem _ _ hcls] at he
    exact hp.labeled _ (List.getElem_mem hcls) e he
  · rw [List.getD_eq_default _ _ hcls] at he
    exact absurd he List.not_mem_nil

theorem mem_mass_iff {m : Mass ℝ} : m ∈ p.mass s cls ↔
    (0 < p.lambda ∧ ∃ e ∈ p.labeled.getD cls [], m = ⟨e.pattern, p.lambda * (e.count : ℝ)⟩) ∨
      (p.lambda < 1 ∧ ∃ z ∈ p.unlabeled.zip s.shares,
        m = ⟨z.1.pattern, (1 - p.lambda) * z.2.getD cls 0 * (z.1.count : ℝ)⟩) := by
  rw [mass, List.mem_append, labeledMass, unlabeledMass, ← List.map_uncurry_zip_eq_zipWith]
  refine or_congr ?_ ?_
  · split
    case isTrue hlambda => simp [hlambda, eq_comm]
    case isFalse hlambda => simp [hlambda]
  · split
    case isTrue hlambda => simp only [hlambda, true_and, List.mem_map, Function.uncurry, eq_comm]
    case isFalse hlambda => simp [hlambda]

end Problem

/-! ## Log-likelihoods as sums over the classes -/

section Sums

open Finset

theorem sum_zip_eq {β γ : Type} (xs : List β) (ys : List γ) (x : β) (y : γ) (f : β → γ → ℝ)
    (h : xs.length ≤ ys.length) : ((xs.zip ys).map fun z => f z.1 z.2).sum =
      ∑ i ∈ range xs.length, f (xs.getD i x) (ys.getD i y) := by
  induction xs generalizing ys with
  | nil => rfl
  | cons a xs ih =>
      cases ys with
      | nil => simp at h
      | cons b ys =>
          rw [List.zip_cons_cons, List.map_cons, List.sum_cons, ih ys (by simpa using h),
            List.length_cons, sum_range_succ', add_comm]
          rfl

theorem getD_zip {β γ : Type} (xs : List β) (ys : List γ) (x : β) (y : γ)
    (h : xs.length = ys.length) (i : Nat) :
    (xs.zip ys).getD i (x, y) = (xs.getD i x, ys.getD i y) := by
  rcases lt_or_ge i xs.length with hi | hi
  · have hzip : i < (xs.zip ys).length := by simp only [List.length_zip]; omega
    rw [List.getD_eq_getElem _ _ hzip, List.getD_eq_getElem _ _ hi,
      List.getD_eq_getElem _ _ (h ▸ hi), List.getElem_zip]
  · have hzip : (xs.zip ys).length ≤ i := by simp only [List.length_zip]; omega
    rw [List.getD_eq_default _ _ hzip, List.getD_eq_default _ _ hi,
      List.getD_eq_default _ _ (h ▸ hi)]

theorem sum_map_sum {β : Type} (xs : List β) (n : Nat) (f : β → Nat → ℝ) :
    (xs.map fun x => ∑ i ∈ range n, f x i).sum = ∑ i ∈ range n, (xs.map fun x => f x i).sum := by
  induction xs with
  | nil => simp
  | cons x xs ih => simp only [List.map_cons, List.sum_cons, ih, sum_add_distrib]

variable {p : Problem ℝ} {s : Estimate ℝ}

theorem sum_zip_classes {β : Type} (hs : s.Shaped p) (xs : List β) (x : β)
    (f : β → ℝ → List (List ℝ) → ℝ) (h : xs.length ≤ p.classes) :
    ((xs.zip (s.priors.zip s.weights)).map fun z => f z.1 z.2.1 z.2.2).sum =
      ∑ cls ∈ range xs.length, f (xs.getD cls x) (s.priors.getD cls 0) (s.weights.getD cls []) := by
  have hlen : s.priors.length = s.weights.length := hs.priors.trans hs.weights.symm
  have hclasses : xs.length ≤ (s.priors.zip s.weights).length := by
    rw [List.length_zip, hs.priors, hs.weights, min_self]
    exact h
  rw [sum_zip_eq xs _ x (0, []) (fun a c => f a c.1 c.2) hclasses]
  simp only [getD_zip _ _ _ _ hlen]

theorem labeledLogLikelihood_eq (hp : p.Sound) (hs : s.Shaped p) :
    p.labeledLogLikelihood s = ∑ cls ∈ range p.classes,
      ((p.labeled.getD cls []).map fun e => (e.count : ℝ) * s.logLikelihoodOf cls e.pattern).sum := by
  change (p.labeled.zip (s.priors.zip s.weights)).foldl (fun sum z => z.1.foldl
    (fun sum e => sum + (e.count : ℝ) * Problem.logLikelihoodIn z.2.1 z.2.2 e.pattern) sum) 0 = _
  simp only [foldl_add_eq, zero_add]
  refine (sum_zip_classes hs p.labeled [] (fun entries prior rows => (entries.map fun e =>
    (e.count : ℝ) * Problem.logLikelihoodIn prior rows e.pattern).sum) hp.classes).trans ?_
  -- The classes after the labeled ones have no entries.
  refine sum_subset (range_subset_range.mpr hp.classes) ?_
  intro cls _ hcls
  have hnone : p.labeled.getD cls [] = [] := List.getD_eq_default _ _ (by simpa using hcls)
  rw [hnone]
  rfl

theorem expectedLogLikelihood_eq (hs : s.Shaped p) {row : List ℝ} (hrow : row.length = p.classes)
    (x : Pattern) : Problem.expectedLogLikelihood s x row =
      ∑ cls ∈ range p.classes, row.getD cls 0 * s.logLikelihoodOf cls x := by
  have hterm : ∀ (sum share other : ℝ),
      (if @BEq.beq ℝ Arithmetic.toBEq share 0 then sum else sum + share * other) =
        sum + share * other := by
    intro sum share other
    by_cases h : share = 0
    · rw [if_pos (beq_real_iff_eq.mpr h), h, zero_mul, add_zero]
    · rw [if_neg (mt beq_real_iff_eq.mp h)]
  change (row.zip (s.priors.zip s.weights)).foldl (fun sum z =>
    if @BEq.beq ℝ Arithmetic.toBEq z.1 0 then sum
    else sum + z.1 * Problem.logLikelihoodIn z.2.1 z.2.2 x) 0 = _
  simp only [hterm]
  rw [foldl_add_eq, zero_add, ← hrow]
  exact sum_zip_classes hs row 0
    (fun share prior rows => share * Problem.logLikelihoodIn prior rows x) hrow.le

theorem unlabeledLogLikelihood_eq (hs : s.Shaped p) :
    p.unlabeledLogLikelihood s = ((p.unlabeled.zip s.shares).map fun z => (z.1.count : ℝ) *
      ∑ cls ∈ range p.classes, z.2.getD cls 0 * s.logLikelihoodOf cls z.1.pattern).sum := by
  change (p.unlabeled.zip s.shares).foldl (fun sum z => sum + (z.1.count : ℝ) *
    Problem.expectedLogLikelihood s z.1.pattern z.2) 0 = _
  rw [foldl_add_eq, zero_add]
  refine congrArg List.sum (List.map_congr_left ?_)
  intro z hz
  rw [expectedLogLikelihood_eq hs (hs.shares_row z.2 (List.of_mem_zip hz).2)]

/-- What a function of patterns sums to over the amounts of a class. -/
theorem sum_mass (p : Problem ℝ) (s : Estimate ℝ) (cls : Nat) (f : Pattern → ℝ) :
    ((p.mass s cls).map fun m => m.amount * f m.pattern).sum =
      (if 0 < p.lambda then
        p.lambda * ((p.labeled.getD cls []).map fun e => (e.count : ℝ) * f e.pattern).sum else 0) +
      if p.lambda < 1 then (1 - p.lambda) * ((p.unlabeled.zip s.shares).map fun z =>
        (z.1.count : ℝ) * (z.2.getD cls 0 * f z.1.pattern)).sum else 0 := by
  rw [Problem.mass, List.map_append, List.sum_append, Problem.labeledMass, Problem.unlabeledMass]
  congr 1
  · split
    · rw [← List.sum_map_mul_left, List.map_map]
      refine congrArg List.sum (List.map_congr_left ?_)
      intro e _
      exact mul_assoc p.lambda (e.count : ℝ) (f e.pattern)
    · rfl
  · split
    · rw [← List.sum_map_mul_left, List.map_zipWith, List.zip_eq_zipWith, List.map_zipWith]
      refine congrArg List.sum (congrArg₂ (List.zipWith · p.unlabeled) ?_ rfl)
      funext e row
      change (1 - p.lambda) * row.getD cls 0 * (e.count : ℝ) * f e.pattern = _
      ring
    · rfl

/-- The log-likelihood is that of the amounts, class by class. -/
theorem logLikelihood_eq_sum (hp : p.Sound) (hs : s.Shaped p) :
    p.logLikelihood s = ∑ cls ∈ range p.classes,
      ((p.mass s cls).map fun m => m.amount * s.logLikelihoodOf cls m.pattern).sum := by
  simp only [sum_mass, sum_add_distrib]
  rw [Problem.logLikelihood]
  congr 1
  · split
    case isTrue =>
      rw [labeledLogLikelihood_eq hp hs, mul_sum]
    case isFalse => simp
  · split
    case isTrue =>
      rw [unlabeledLogLikelihood_eq hs, ← mul_sum, ← sum_map_sum]
      simp only [mul_sum]
    case isFalse => simp

end Sums

/-! ## Log-likelihoods with extended numbers -/

section Extension

variable {p : Problem ℝ} {s : Estimate ℝ}

theorem forall_mem_zip_classes {β : Type} (hs : s.Shaped p) {xs : List β} (x : β)
    (h : xs.length ≤ p.classes) {q : β → ℝ → List (List ℝ) → Prop}
    (hq : ∀ cls < xs.length, q (xs.getD cls x) (s.priors.getD cls 0) (s.weights.getD cls [])) :
    ∀ z ∈ xs.zip (s.priors.zip s.weights), q z.1 z.2.1 z.2.2 := by
  intro z hz
  obtain ⟨i, hi, rfl⟩ := List.mem_iff_getElem.mp hz
  have hlen := hs.priors
  have hlen' := hs.weights
  simp only [List.length_zip] at hi
  have := hq i (by omega)
  rw [List.getD_eq_getElem _ _ (by omega), List.getD_eq_getElem _ _ (by omega),
    List.getD_eq_getElem _ _ (by omega)] at this
  simpa only [List.getElem_zip] using this

theorem extend_zip {β : Type} (xs : List β) :
    xs.zip (s.extend.priors.zip s.extend.weights) =
      (xs.zip (s.priors.zip s.weights)).map (Prod.map id (Prod.map number extendRows)) := by
  rw [Estimate.extend, List.zip_map, List.zip_map_right]

theorem Estimate.Supports.labeled (hp : p.Sound) (h : s.Supports p) : s.SupportsLabeled p := by
  intro hlambda cls hcls e he
  have hcount : (0 : ℝ) < e.count := Nat.cast_pos.mpr (hp.labeled_getD he).2
  refine h cls hcls _ (Problem.mem_mass_iff.mpr (.inl ⟨hlambda, e, he, rfl⟩)) ?_
  exact (mul_pos hlambda hcount).ne'

theorem Estimate.Supports.unlabeled (hp : p.Sound) (h : s.Supports p) (hlambda : p.lambda < 1)
    {cls : Nat} (hcls : cls < p.classes) {z : Tally.Entry × List ℝ}
    (hz : z ∈ p.unlabeled.zip s.shares) (hshare : z.2.getD cls 0 ≠ 0) :
    s.Produces cls z.1.pattern := by
  have hcount : (0 : ℝ) < z.1.count := Nat.cast_pos.mpr (hp.unlabeled z.1 (List.of_mem_zip hz).1).2
  refine h cls hcls _ (Problem.mem_mass_iff.mpr (.inr ⟨hlambda, z, hz, rfl⟩)) ?_
  exact mul_ne_zero (mul_ne_zero (sub_pos.mpr hlambda).ne' hshare) hcount.ne'

theorem labeledLogLikelihood_extend (hp : p.Sound) (hs : s.Shaped p) (h : s.Supports p)
    (hlambda : 0 < p.lambda) :
    p.extend.labeledLogLikelihood s.extend = number (p.labeledLogLikelihood s) := by
  have hlikely := forall_mem_zip_classes hs [] hp.classes
    (q := fun entries prior rows => ∀ e ∈ entries, Problem.Likely prior rows e.pattern)
    fun cls hcls => h.labeled hp hlambda cls (hcls.trans_le hp.classes)
  rw [Problem.labeledLogLikelihood, Problem.labeledLogLikelihood, extend_zip, List.foldl_map]
  refine foldl_number _ _ _ ?_ 0
  intro sum z hz
  refine foldl_number _ _ _ ?_ sum
  intro sum e he
  simp only [Problem.logLikelihoodIn_extend (hlikely z hz e he)]
  rfl

theorem expectedLogLikelihood_extend (hs : s.Shaped p) {x : Pattern} {row : List ℝ}
    (hrow : row.length = p.classes)
    (h : ∀ cls < p.classes, row.getD cls 0 ≠ 0 → s.Produces cls x) :
    Problem.expectedLogLikelihood s.extend x (row.map number) =
      number (Problem.expectedLogLikelihood s x row) := by
  have hlikely := forall_mem_zip_classes hs 0 hrow.le
    (q := fun share prior rows => share ≠ 0 → Problem.Likely prior rows x)
    fun cls hcls => h cls (hrow ▸ hcls)
  rw [Problem.expectedLogLikelihood, Problem.expectedLogLikelihood, List.zip_map_left, extend_zip,
    List.map_map, List.foldl_map]
  refine foldl_number _ _ _ ?_ 0
  intro sum z hz
  by_cases hzero : z.1 = 0
  · have hshare : (number z.1 == 0) = true := beq_real_iff_eq.mpr hzero
    have hshare' : @BEq.beq ℝ Arithmetic.toBEq z.1 0 = true := beq_real_iff_eq.mpr hzero
    simp only [Function.comp, Prod.map, id, hshare, hshare', if_true]
  · have hshare : ¬ (number z.1 == 0) = true := mt beq_real_iff_eq.mp hzero
    have hshare' : ¬ @BEq.beq ℝ Arithmetic.toBEq z.1 0 = true := mt beq_real_iff_eq.mp hzero
    simp only [Function.comp, Prod.map, id, if_neg hshare, if_neg hshare',
      Problem.logLikelihoodIn_extend (hlikely z hz hzero)]
    rfl

theorem unlabeledLogLikelihood_extend (hp : p.Sound) (hs : s.Shaped p) (h : s.Supports p)
    (hlambda : p.lambda < 1) :
    p.extend.unlabeledLogLikelihood s.extend = number (p.unlabeledLogLikelihood s) := by
  rw [Problem.unlabeledLogLikelihood, Problem.unlabeledLogLikelihood]
  simp only [Problem.extend, show s.extend.shares = s.shares.map (·.map number) from rfl,
    List.zip_map_right, List.foldl_map]
  refine foldl_number _ _ _ ?_ 0
  intro sum z hz
  simp only [Prod.map, id]
  rw [expectedLogLikelihood_extend hs (hs.shares_row z.2 (List.of_mem_zip hz).2)
    fun cls hcls hshare => h.unlabeled hp hlambda hcls hz hshare]
  rfl

theorem logLikelihood_extend (hp : p.Sound) (hs : s.Shaped p) (h : s.Supports p) :
    p.extend.logLikelihood s.extend = number (p.logLikelihood s) := by
  have hlabeled : (if 0 < p.extend.lambda then p.extend.labeledLogLikelihood s.extend else 0) =
      number (if 0 < p.lambda then p.labeledLogLikelihood s else 0) := by
    change (if 0 < p.lambda then p.extend.labeledLogLikelihood s.extend else 0) = _
    split
    case isTrue hlambda => exact labeledLogLikelihood_extend hp hs h hlambda
    case isFalse => rfl
  have hunlabeled :
      (if p.extend.lambda < 1 then p.extend.unlabeledLogLikelihood s.extend else 0) =
        number (if p.lambda < 1 then p.unlabeledLogLikelihood s else 0) := by
    change (if p.lambda < 1 then p.extend.unlabeledLogLikelihood s.extend else 0) = _
    split
    case isTrue hlambda => exact unlabeledLogLikelihood_extend hp hs h hlambda
    case isFalse => rfl
  rw [Problem.logLikelihood, Problem.logLikelihood]
  simp only [hlabeled, hunlabeled]
  simp only [Problem.extend, Extended.number_mul, Extended.one_sub_number, Extended.number_add]

end Extension

end Linkage
