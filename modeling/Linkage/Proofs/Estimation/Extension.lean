import Linkage.Estimation.Run
import Linkage.Proofs.Exact.Extended
import Linkage.Proofs.Traversal
import Mathlib.Data.List.GetD

/-
# Estimation with real and with extended numbers

A step divides by totals that it has found to be positive, and takes no logarithms.  So with
extended numbers it does what it does with real numbers.  The log-likelihood takes logarithms, of
the probabilities that an estimate gives to what was counted; where these are positive it is the
same real number, too.
-/

namespace Linkage

open Extended (number)

/-- A table of real numbers as one of extended numbers. -/
def extendRows (rows : List (List ℝ)) : List (List Extended) :=
  rows.map (·.map number)

def Estimate.extend (s : Estimate ℝ) : Estimate Extended where
  priors := s.priors.map number
  weights := s.weights.map extendRows
  shares := extendRows s.shares

def Mass.extend (m : Mass ℝ) : Mass Extended :=
  ⟨m.pattern, number m.amount⟩

def Problem.extend (p : Problem ℝ) : Problem Extended where
  levels := p.levels
  classes := p.classes
  unlabeled := p.unlabeled
  labeled := p.labeled
  lambda := number p.lambda

/-! ## Sums and rows -/

theorem foldl_number {β : Type} (xs : List β) (f : ℝ → β → ℝ) (g : Extended → β → Extended)
    (h : ∀ (a : ℝ) (b : β), b ∈ xs → g (number a) b = number (f a b)) (start : ℝ) :
    xs.foldl g (number start) = number (xs.foldl f start) := by
  induction xs generalizing start with
  | nil => rfl
  | cons x xs ih =>
      rw [List.foldl_cons, List.foldl_cons, h start x List.mem_cons_self]
      exact ih (fun a b hb => h a b (List.mem_cons_of_mem x hb)) _

theorem getD_map_number (row : List ℝ) (i : Nat) :
    (row.map number).getD i 0 = number (row.getD i 0) :=
  List.getD_map _ _ number

theorem sum_map_number (xs : List ℝ) :
    Arithmetic.sum (xs.map number) = number (Arithmetic.sum xs) := by
  rw [Arithmetic.sum, Arithmetic.sum, List.foldl_map]
  exact foldl_number xs _ _ (fun _ _ _ => rfl) (-0)

namespace Mass

theorem total_extend (ms : List (Mass ℝ)) :
    Mass.total (ms.map Mass.extend) = number (Mass.total ms) := by
  rw [Mass.total, Mass.total, List.foldl_map]
  exact foldl_number ms _ _ (fun _ _ _ => rfl) 0

theorem modify_map_number (row : List ℝ) (level : Nat) (a : ℝ) :
    (row.map number).modify level (· + number a) = (row.modify level (· + a)).map number := by
  refine List.ext_getElem? ?_
  intro i
  rw [List.getElem?_modify, List.getElem?_map, List.getElem?_map, List.getElem?_modify]
  cases row[i]? with
  | none => rfl
  | some x => by_cases h : level = i <;> simp [h]

theorem addTo_extend (rows : List (List ℝ)) (m : Mass ℝ) :
    Mass.addTo (extendRows rows) m.extend = extendRows (Mass.addTo rows m) := by
  rw [Mass.addTo, Mass.addTo, extendRows, extendRows, List.zipWith_map_left, List.map_zipWith]
  simp only [Mass.extend, modify_map_number]

theorem table_extend (levels : List Nat) (ms : List (Mass ℝ)) :
    Mass.table levels (ms.map Mass.extend) = extendRows (Mass.table levels ms) := by
  have hzero : (levels.map fun n => List.replicate n (0 : Extended)) =
      extendRows (levels.map fun n => List.replicate n 0) := by
    simp [extendRows, Extended.zero_eq]
  have hfold : ∀ rows, (ms.map Mass.extend).foldl Mass.addTo (extendRows rows) =
      extendRows (ms.foldl Mass.addTo rows) := by
    induction ms with
    | nil => exact fun rows => rfl
    | cons m ms ih =>
        intro rows
        rw [List.map_cons, List.foldl_cons, List.foldl_cons, addTo_extend, ih]
  rw [Mass.table, Mass.table, hzero, hfold]

theorem normalize_extend (rows : List (List ℝ)) {total : ℝ} (h : 0 < total) :
    Mass.normalize (extendRows rows) (number total) = extendRows (Mass.normalize rows total) := by
  simp only [Mass.normalize, extendRows, List.map_map]
  refine List.map_congr_left ?_
  intro row _
  simp only [Function.comp, List.map_map]
  exact List.map_congr_left fun x _ => Extended.number_div x h.ne'

end Mass

namespace Problem

variable (p : Problem ℝ) (s : Estimate ℝ)

/-! ## One step -/

theorem likelihood_extend (prior : ℝ) (rows : List (List ℝ)) (x : Pattern) :
    likelihood (number prior) (extendRows rows) x = number (likelihood prior rows x) := by
  rw [likelihood, likelihood, extendRows, List.zip_map_left, List.foldl_map]
  refine foldl_number _ _ _ ?_ prior
  intro a b _
  simp only [Prod.map, id, getD_map_number, Extended.number_mul]

theorem likelihoods_extend (x : Pattern) :
    s.extend.priors.zipWith (fun prior rows => likelihood prior rows x) s.extend.weights =
      (s.priors.zipWith (fun prior rows => likelihood prior rows x) s.weights).map number := by
  rw [Estimate.extend, List.zipWith_map, List.map_zipWith]
  simp only [likelihood_extend]

theorem sharesOf_extend (e : Tally.Entry) :
    sharesOf s.extend e = (sharesOf s e).map (·.map number) := by
  rw [sharesOf, sharesOf]
  set likelihoods := s.priors.zipWith (fun prior rows => likelihood prior rows e.pattern) s.weights
    with hlikelihoods
  have htotal : (likelihoods.map number).foldl (· + ·) 0 = number (likelihoods.foldl (· + ·) 0) := by
    rw [List.foldl_map]
    exact foldl_number likelihoods _ _ (fun _ _ _ => rfl) 0
  simp only [likelihoods_extend, ← hlikelihoods, htotal, Extended.zero_lt_number]
  split
  case isTrue hpos =>
    simp only [Except.map, List.map_map]
    exact congrArg Except.ok (List.map_congr_left fun x _ => Extended.number_div x hpos.ne')
  case isFalse => rfl

theorem expect_extend : p.extend.expect s.extend = (p.expect s).map Estimate.extend := by
  rw [expect, expect]
  simp only [Problem.extend, Extended.number_lt_one]
  split
  case isTrue =>
    rw [Traversal.mapM_map_result fun e _ => sharesOf_extend s e]
    cases p.unlabeled.mapM (sharesOf s) <;> rfl
  case isFalse => rfl

theorem mass_extend (cls : Nat) : p.extend.mass s.extend cls = (p.mass s cls).map Mass.extend := by
  rw [mass, mass, List.map_append]
  congr 1
  · rw [labeledMass, labeledMass]
    simp only [Problem.extend, Extended.zero_lt_number]
    split
    · simp [Mass.extend]
    · rfl
  · rw [unlabeledMass, unlabeledMass]
    simp only [Problem.extend, Extended.number_lt_one]
    split
    · simp only [Estimate.extend, extendRows, List.zipWith_map_right, List.map_zipWith, Mass.extend,
        getD_map_number, Extended.one_sub_number, Extended.number_mul, Extended.natCast_eq]
    · rfl

theorem checkMass_eq_ok_iff {α : Type} [Arithmetic α] {totals : List α} :
    checkMass totals = .ok () ↔ ∀ total ∈ totals, 0 < total := by
  rw [checkMass, Traversal.forM_eq_ok_iff]
  refine Iff.trans (forall₂_congr fun x _ => ?_)
    (Traversal.forall_mem_zipIdx_iff totals fun total => 0 < total)
  by_cases h : 0 < x.1 <;> simp [h]

theorem checkMass_map_number (totals : List ℝ) :
    checkMass (totals.map number) = checkMass totals := by
  simp only [checkMass, List.zipIdx_map, List.forM_eq_forM, List.forM_map, Prod.map, id,
    Extended.zero_lt_number]

/-- The estimate of a maximization step that finds an amount in every class. -/
def maximum {α : Type} [Arithmetic α] (p : Problem α) (s : Estimate α) : Estimate α where
  priors := (List.range p.classes).map fun cls => Mass.total (p.mass s cls) /
    Arithmetic.sum ((List.range p.classes).map fun cls => Mass.total (p.mass s cls))
  weights := (List.range p.classes).map fun cls =>
    Mass.normalize (Mass.table p.levels (p.mass s cls)) (Mass.total (p.mass s cls))
  shares := s.shares

theorem maximize_eq {α : Type} [Arithmetic α] (p : Problem α) (s : Estimate α) :
    p.maximize s =
      (checkMass ((List.range p.classes).map fun cls => Mass.total (p.mass s cls))).map
        fun _ => p.maximum s := by
  rw [maximize]
  simp only [List.map_map, Function.comp_def, List.zipWith_map, List.zipWith_self]
  cases checkMass ((List.range p.classes).map fun cls => Mass.total (p.mass s cls)) <;> rfl

theorem maximize_eq_ok_iff {α : Type} [Arithmetic α] {p : Problem α} {s u : Estimate α} :
    p.maximize s = .ok u ↔
      (∀ cls < p.classes, 0 < Mass.total (p.mass s cls)) ∧ u = p.maximum s := by
  have hcheck : checkMass ((List.range p.classes).map fun cls => Mass.total (p.mass s cls)) = .ok () ↔
      ∀ cls < p.classes, 0 < Mass.total (p.mass s cls) := by
    simp [checkMass_eq_ok_iff]
  rw [maximize_eq, ← hcheck]
  cases checkMass ((List.range p.classes).map fun cls => Mass.total (p.mass s cls)) with
  | error e => simp [Except.map]
  | ok _ => simp [Except.map, eq_comm]

theorem maximize_extend : p.extend.maximize s.extend = (p.maximize s).map Estimate.extend := by
  set totals := (List.range p.classes).map fun cls => Mass.total (p.mass s cls) with htotals
  have htotal : ∀ cls, Mass.total (p.extend.mass s.extend cls) = number (Mass.total (p.mass s cls)) :=
    fun cls => by rw [mass_extend, Mass.total_extend]
  have hmap : ((List.range p.classes).map fun cls => number (Mass.total (p.mass s cls))) =
      totals.map number := by
    rw [htotals, List.map_map]
    rfl
  rw [maximize_eq, maximize_eq]
  simp only [show p.extend.classes = p.classes from rfl, htotal, hmap, checkMass_map_number,
    ← htotals]
  cases hcheck : checkMass totals with
  | error e => rfl
  | ok _ =>
      have hpos : ∀ cls ∈ List.range p.classes, 0 < Mass.total (p.mass s cls) := fun cls hcls =>
        checkMass_eq_ok_iff.mp hcheck _ (List.mem_map_of_mem hcls)
      have hall : ∀ cls ∈ List.range p.classes, 0 < Arithmetic.sum totals := by
        intro cls hcls
        rw [sum_eq]
        refine List.sum_pos totals (fun total h => checkMass_eq_ok_iff.mp hcheck total h) ?_
        exact List.ne_nil_of_mem (List.mem_map_of_mem hcls)
      refine congrArg Except.ok ?_
      simp only [maximum, htotal, hmap, sum_map_number, show p.extend.classes = p.classes from rfl]
      simp only [Estimate.extend, List.map_map, Estimate.mk.injEq, and_true]
      refine ⟨List.map_congr_left fun cls hcls => ?_, List.map_congr_left ?_⟩
      · exact Extended.number_div _ (hall cls hcls).ne'
      · intro cls hcls
        change Mass.normalize (Mass.table p.levels (p.extend.mass s.extend cls)) _ = _
        rw [mass_extend, Mass.table_extend]
        exact Mass.normalize_extend _ (hpos cls hcls)

theorem step_extend : p.extend.step s.extend = (p.step s).map Estimate.extend := by
  rw [step, step, expect_extend]
  cases p.expect s with
  | error e => rfl
  | ok s' => exact maximize_extend p s'

end Problem

end Linkage
