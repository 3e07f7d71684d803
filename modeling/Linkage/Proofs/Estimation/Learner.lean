import Linkage.Estimation.Learner
import Linkage.Proofs.Estimation.Persistence
import Linkage.Proofs.Exact.Double
import Linkage.Proofs.Mixture.Distribution
import Linkage.Proofs.Random.Generator

/-
# What the learners return

A run starts from probability vectors, and every step makes probability vectors of the totals that
it has found to be positive; the shares of labeled pairs are such vectors too.  So a learner whose
arguments are accepted, and whose runs do not fail, has a model to return: none of the checks on the
way to it can refuse what was learned.
-/

namespace Linkage

open Extended (number)
open PatternSpace

/-! ## Accepted arguments -/

/-- A tally of a comparator's patterns in which something was counted. -/
structure Tally.Filled (c : RecordComparator) (t : Tally) : Prop where
  comparator : t.comparator = c
  sound : t.Sound
  entries_ne : t.entries ≠ []

/-- Tallies of patterns of their comparators.  The comparators are told apart by their serial
numbers. -/
structure Tally.Consistent (ts : List Tally) : Prop where
  sound : ∀ t ∈ ts, t.Sound
  comparator : ∀ t ∈ ts, ∀ u ∈ ts, t.sameComparator u = true → t.comparator = u.comparator

theorem checkTallies_eq_ok_iff {ts : List Tally} {c : RecordComparator} :
    checkTallies ts = .ok c ↔ ∃ first rest, ts = first :: rest ∧ first.comparator = c ∧
      ∀ t ∈ ts, t.sameComparator first = true ∧ t.isEmpty = false := by
  cases ts with
  | nil => simp [checkTallies]
  | cons first rest =>
      rw [checkTallies, Traversal.bind_eq_ok_iff]
      have hall : ((first :: rest).forM fun t : Tally =>
          if !t.sameComparator first then .error .comparatorMismatch
          else if t.isEmpty then .error (.invalidModel .emptyTally)
          else .ok () : Except Error Unit) = .ok () ↔
            ∀ t ∈ first :: rest, t.sameComparator first = true ∧ t.isEmpty = false := by
        rw [Traversal.forM_eq_ok_iff]
        refine forall₂_congr fun t _ => ?_
        cases t.sameComparator first <;> cases t.isEmpty <;> simp
      constructor
      · rintro ⟨⟨⟩, hchecks, hc⟩
        exact ⟨first, rest, rfl, Except.ok.inj hc, hall.mp hchecks⟩
      · rintro ⟨first', rest', heq, hc, hchecks⟩
        obtain ⟨rfl, rfl⟩ := List.cons.inj heq
        exact ⟨(), hall.mpr hchecks, congrArg Except.ok hc⟩

theorem Tally.isEmpty_iff {t : Tally} : t.isEmpty = true ↔ t.entries = [] :=
  List.isEmpty_iff

theorem Tally.Consistent.filled {ts : List Tally} {c : RecordComparator}
    (h : Tally.Consistent ts) (hcheck : checkTallies ts = .ok c) : ∀ t ∈ ts, t.Filled c := by
  obtain ⟨first, rest, rfl, rfl, hall⟩ := checkTallies_eq_ok_iff.mp hcheck
  intro t ht
  obtain ⟨hsame, hempty⟩ := hall t ht
  refine ⟨h.comparator t ht first List.mem_cons_self hsame, h.sound t ht, ?_⟩
  intro hnil
  simp [Tally.isEmpty_iff.mpr hnil] at hempty

theorem Problem.sound_of_filled {c : RecordComparator} {classes : Nat} {unlabeled : Tally}
    {labeled : List Tally} {lambda : ℝ} (h : ∀ t ∈ unlabeled :: labeled, t.Filled c)
    (hclasses : labeled.length ≤ classes) (hlambda : 0 ≤ lambda ∧ lambda ≤ 1) :
    (⟨c.levels, classes, unlabeled.entries, labeled.map Tally.entries, lambda⟩ :
      Problem ℝ).Sound :=
  Problem.sound_of_tallies (fun t ht => ⟨(h t ht).comparator, (h t ht).sound⟩) hclasses hlambda

theorem Tally.Consistent.of_filled {ts : List Tally} {c : RecordComparator}
    (h : ∀ t ∈ ts, t.Filled c) : Tally.Consistent ts where
  sound := fun t ht => (h t ht).sound
  comparator := fun t ht u hu _ => (h t ht).comparator.trans (h u hu).comparator.symm

theorem Tally.Consistent.of_sound {t : Tally} (h : t.Sound) : Tally.Consistent [t] where
  sound := by simpa using h
  comparator := by simp

theorem checkTallies_eq_ok {ts : List Tally} {c : RecordComparator} (hne : ts ≠ [])
    (h : ∀ t ∈ ts, t.Filled c) : checkTallies ts = .ok c := by
  obtain ⟨first, rest, rfl⟩ := List.exists_cons_of_ne_nil hne
  have hfirst := h first List.mem_cons_self
  refine checkTallies_eq_ok_iff.mpr ⟨first, rest, rfl, hfirst.comparator, ?_⟩
  intro t ht
  refine ⟨?_, ?_⟩
  · simp [Tally.sameComparator, (h t ht).comparator, hfirst.comparator]
  · simpa [Tally.isEmpty] using (h t ht).entries_ne

theorem checkLambda_eq_ok_iff {lambda : Extended} :
    checkLambda lambda = .ok () ↔ ∃ x : ℝ, lambda = number x ∧ 0 ≤ x ∧ x ≤ 1 := by
  have hrange : checkLambda lambda = .ok () ↔ 0 ≤ lambda ∧ lambda ≤ 1 := by
    rw [checkLambda]
    split <;> simp [*]
  rw [hrange]
  constructor
  · rintro ⟨hlow, hhigh⟩
    cases lambda with
    | number x =>
        exact ⟨x, rfl, Extended.number_le_number.mp hlow, Extended.number_le_number.mp hhigh⟩
    | top => exact (hhigh.elim id id : False).elim
    | bottom => exact (hlow.elim id id : False).elim
    | undefined => exact (hlow.elim id id : False).elim
  · rintro ⟨x, rfl, hlow, hhigh⟩
    exact ⟨Extended.number_le_number.mpr hlow, Extended.number_le_number.mpr hhigh⟩

theorem StopRule.check_eq_ok_iff {r : StopRule} : r.check = .ok () ↔
    0 < r.maxIterations ∧ (r.tolerance.isFinite = true ∧ 0 < r.tolerance) ∧ 0 < r.restarts := by
  have htolerance : (r.tolerance.isFinite && 0 < r.tolerance) = true ↔
      r.tolerance.isFinite = true ∧ 0 < r.tolerance := by
    rw [Bool.and_eq_true, decide_eq_true_iff]
  rw [StopRule.check, ← htolerance, Nat.pos_iff_ne_zero, Nat.pos_iff_ne_zero]
  by_cases hiterations : r.maxIterations = 0
  · simp [hiterations]
  · cases r.tolerance.isFinite && 0 < r.tolerance with
    | false => simp [hiterations]
    | true => by_cases hrestarts : r.restarts = 0 <;> simp [hiterations, hrestarts]

theorem Simplex.checkLength_eq_ok_iff {n : Nat} : checkLength n = .ok () ↔ n < limit := by
  rw [checkLength]
  split <;> simp [*]

theorem checkUnsupervised_eq_ok_iff {classes : Nat} {r : StopRule} {t : Tally}
    {c : RecordComparator} : checkUnsupervised classes r t = .ok c ↔
      checkClasses classes 1 = .ok () ∧ r.check = .ok () ∧ checkTallies [t] = .ok c ∧
        classes < Simplex.limit := by
  rw [checkUnsupervised, ← Simplex.checkLength_eq_ok_iff, Traversal.bind_eq_ok_iff]
  simp only [Traversal.bind_eq_ok_iff]
  constructor
  · rintro ⟨⟨⟩, hclasses, ⟨⟩, hr, c', htally, ⟨⟩, hroom, hc⟩
    obtain rfl := Except.ok.inj hc
    exact ⟨hclasses, hr, htally, hroom⟩
  · rintro ⟨hclasses, hr, htally, hroom⟩
    exact ⟨(), hclasses, (), hr, c, htally, (), hroom, rfl⟩

/-! ## Shares of labeled pairs -/

namespace Tally

variable {c : RecordComparator} {t : Tally}

noncomputable def masses (t : Tally) : List (Mass ℝ) :=
  t.entries.map fun e => ⟨e.pattern, e.count⟩

theorem masses_fits (h : t.Filled c) : ∀ m ∈ t.masses, Fits c.levels m.pattern ∧ 0 ≤ m.amount := by
  intro m hm
  obtain ⟨e, he, rfl⟩ := List.mem_map.mp hm
  exact ⟨h.comparator ▸ (h.sound e he).1, Nat.cast_nonneg _⟩

theorem total_masses (t : Tally) : Mass.total t.masses = t.total := by
  have hcounts : t.masses.map Mass.amount = (t.entries.map Entry.count).map Nat.cast := by
    rw [masses, List.map_map, List.map_map]
    rfl
  rw [Mass.total_eq, hcounts, ← Nat.cast_list_sum]
  rfl

theorem total_pos (h : t.Filled c) : 0 < t.total := by
  obtain ⟨e, he⟩ := List.exists_mem_of_ne_nil _ h.entries_ne
  exact (h.sound e he).2.trans_le (List.single_le_sum (fun _ _ => Nat.zero_le _) _
    (List.mem_map_of_mem he))

theorem total_masses_pos (h : t.Filled c) : 0 < Mass.total t.masses := by
  rw [total_masses]
  exact Nat.cast_pos.mpr (total_pos h)

theorem shares_eq (h : t.Filled c) : (t.shares : List (List ℝ)) =
    Mass.normalize (Mass.table c.levels t.masses) (Mass.total t.masses) := by
  rw [total_masses, ← h.comparator]
  rfl

theorem shares_extend (h : t.Filled c) : (t.shares : List (List Extended)) = extendRows t.shares := by
  have hmasses : (t.entries.map fun e => (⟨e.pattern, e.count⟩ : Mass Extended)) =
      t.masses.map Mass.extend := by
    rw [masses, List.map_map]
    rfl
  rw [shares, hmasses, Mass.table_extend]
  exact Mass.normalize_extend _ (Nat.cast_pos.mpr (total_pos h))

theorem map_shares_extend {labeled : List Tally} (h : ∀ t ∈ labeled, t.Filled c) :
    (labeled.map shares : Weights Extended) =
      (labeled.map fun t => (t.shares : List (List ℝ))).map extendRows := by
  rw [List.map_map]
  exact List.map_congr_left fun t ht => shares_extend (h t ht)

theorem rowsFit_shares {α : Type} [Arithmetic α] (h : t.Filled c) :
    RowsFit c.levels (t.shares : List (List α)) := by
  obtain ⟨rfl, hsound, -⟩ := h
  refine rowsFit_normalize_table ?_ _
  intro m hm
  obtain ⟨e, he, rfl⟩ := List.mem_map.mp hm
  exact (hsound e he).1

theorem shares_nonneg (h : t.Filled c) : ∀ row ∈ (t.shares : List (List ℝ)), ∀ w ∈ row, 0 ≤ w := by
  rw [shares_eq h]
  exact normalize_table_nonneg (masses_fits h) (total_masses_pos h).le

theorem shares_sum (h : t.Filled c) : ∀ row ∈ (t.shares : List (List ℝ)), row.sum = 1 := by
  rw [shares_eq h]
  exact normalize_table_sum (fun m hm => (masses_fits h m hm).1) (total_masses_pos h)

theorem stochastic_shares {labeled : List Tally} (h : ∀ t ∈ labeled, t.Filled c) :
    Weights.Stochastic c.levels (labeled.map shares) := by
  rw [map_shares_extend h]
  refine Weights.stochastic_map_extendRows ?_ ?_ ?_
  all_goals
    intro rows hrows
    obtain ⟨t, ht, rfl⟩ := List.mem_map.mp hrows
  · exact rowsFit_shares (h t ht)
  · exact shares_nonneg (h t ht)
  · exact shares_sum (h t ht)

end Tally

/-! ## What runs find -/

/-- A solution whose parameters are probability vectors. -/
def Solution.Distributed (p : Problem ℝ) (solution : Solution Extended) : Prop :=
  ∃ u : Estimate ℝ, u.Distributed p ∧ solution.priors = u.priors.map number ∧
    solution.weights = u.weights.map extendRows

namespace Problem

variable {γ : Type} [Draws γ Extended] {p : Problem ℝ} {r : StopRule} {g : γ}
  {solution : Solution Extended}

theorem distributed_of_solve (hdraws : Simplex.UnitDraws γ) (hp : p.Sound) (hclasses : 0 < p.classes)
    (hr : r.check = .ok ()) (h : (p.extend.solve r g).1.result = .ok solution) :
    solution.Distributed p := by
  refine of_solve ?_ h
  intro g events new hnew
  obtain ⟨s, hstart, hs⟩ := exists_start hdraws p g
  rw [hstart] at hnew
  obtain ⟨n, u, hsteps, hpriors, hweights, -, hn⟩ := steps_of_continueRun hnew
  obtain ⟨v, rfl, hreal⟩ := hsteps.of_extend
  have hpos := hn (StopRule.check_eq_ok_iff.mp hr).1
  exact ⟨v, hreal.distributed_of_pos hp hclasses hs hpos, hpriors, hweights⟩

end Problem

/-! ## Models of solutions -/

section Models

variable {p : Problem ℝ} {c : RecordComparator} {matchCount : Nat} {solution : Solution Extended}

theorem Solution.Distributed.weights (h : solution.Distributed p) :
    solution.weights.length = p.classes ∧ solution.weights.Stochastic p.levels := by
  obtain ⟨u, hu, -, hweights⟩ := h
  rw [hweights]
  exact ⟨(List.length_map ..).trans hu.weights,
    Weights.stochastic_map_extendRows hu.rows hu.rows_nonneg hu.rows_sum⟩

theorem Solution.Distributed.priors (h : solution.Distributed p) :
    solution.priors.length = p.classes ∧ Distribution solution.priors := by
  obtain ⟨u, hu, hpriors, -⟩ := h
  rw [hpriors]
  exact ⟨(List.length_map ..).trans hu.priors, distribution_map_number hu.priors_nonneg hu.priors_sum⟩

theorem leastIndex_lt {α : Type} [Arithmetic α] {xs : List α} (hne : xs ≠ []) : leastIndex xs < xs.length := by
  cases xs with
  | nil => exact absurd rfl hne
  | cons x xs =>
      rw [leastIndex]
      split
      case h_1 y hy =>
        obtain ⟨hlt, -⟩ := List.getElem?_eq_some_iff.mp hy
        split
        case isTrue => exact Nat.succ_lt_succ hlt
        case isFalse => exact Nat.succ_pos _
      case h_2 => exact Nat.succ_pos _

theorem modelOfLabeled_eq_ok (hclasses : checkClasses p.classes matchCount = .ok ())
    (hlevels : p.levels = c.levels) (h : solution.Distributed p) :
    modelOfLabeled c matchCount solution = .ok
        ⟨⟨c, matchCount, solution.weights, solution.weights.logs, some solution.priors⟩,
          solution.report⟩ ∧
      Model.Stochastic p.classes
        ⟨c, matchCount, solution.weights, solution.weights.logs, some solution.priors⟩ := by
  obtain ⟨hlen, hstochastic⟩ := h.weights
  obtain ⟨hlenPriors, hpriors⟩ := h.priors
  obtain ⟨hmake, hm⟩ := Model.make_eq_ok hclasses hlen (hlevels ▸ hstochastic)
  obtain ⟨hwith, hm'⟩ := Model.withPriors_eq_ok hm hlenPriors hpriors
  refine ⟨?_, hm'⟩
  rw [modelOfLabeled, hmake]
  change (Model.withPriors _ _ >>= _) = _
  rw [hwith]
  rfl

theorem modelOfUnlabeled_eq_ok (hclasses : checkClasses p.classes 1 = .ok ())
    (hlevels : p.levels = c.levels) (h : solution.Distributed p) :
    ∃ m, modelOfUnlabeled c solution = .ok ⟨m, solution.report⟩ ∧
      m.Stochastic p.classes ∧ m.weights.Perm solution.weights ∧
        ∃ priors, m.priors = some priors ∧ priors.Perm solution.priors := by
  obtain ⟨hlen, hstochastic⟩ := h.weights
  obtain ⟨hlenPriors, hpriors⟩ := h.priors
  obtain ⟨hmake, hm⟩ := Model.make_eq_ok hclasses hlen (hlevels ▸ hstochastic)
  obtain ⟨hwith, hm'⟩ := Model.withPriors_eq_ok hm hlenPriors hpriors
  have hleast : leastIndex solution.priors < p.classes := by
    rw [← hlenPriors]
    refine leastIndex_lt (List.ne_nil_of_length_pos ?_)
    rw [hlenPriors]
    exact Model.classes_pos_of_checkClasses hclasses
  have hrange : ∀ j ∈ [leastIndex solution.priors], j < p.classes := by
    intro j hj
    rw [List.mem_singleton.mp hj]
    exact hleast
  have hone : checkClasses p.classes [leastIndex solution.priors].length = .ok () := hclasses
  obtain ⟨hfirst, hm''⟩ := Model.withMatchClasses_eq_ok hm' hone hrange (List.nodup_singleton _)
  have horder := Model.classOrder_perm hrange (List.nodup_singleton _)
  refine ⟨_, ?_, hm'', Model.pick_perm (hlen.symm ▸ horder), _, rfl,
    Model.pick_perm (hlenPriors.symm ▸ horder)⟩
  rw [modelOfUnlabeled, hmake]
  change (Model.withPriors _ _ >>= _) = _
  rw [hwith]
  change (Model.withMatchClasses _ _ >>= _) = _
  rw [hfirst]
  rfl

end Models

/-! ## Learners -/

section Learners

variable {γ : Type} [Draws γ Extended] {c : RecordComparator} {matchCount : Nat}
  {labeled : List Tally}
  {r : StopRule} {g : γ} {solution : Solution Extended}

theorem ne_nil_of_checkClasses (hclasses : checkClasses labeled.length matchCount = .ok ()) :
    labeled ≠ [] := by
  rintro rfl
  exact absurd (Model.checkClasses_eq_ok_iff.mp hclasses).1 (by decide)

noncomputable def Model.ofShares (c : RecordComparator) (matchCount : Nat) (labeled : List Tally) :
    Model Extended :=
  let weights : Weights Extended := labeled.map Tally.shares
  ⟨c, matchCount, weights, weights.logs, none⟩

theorem learnSupervised_eq_ok (hlabeled : ∀ t ∈ labeled, t.Filled c)
    (hclasses : checkClasses labeled.length matchCount = .ok ()) :
    learnSupervised matchCount labeled = .ok (Model.ofShares c matchCount labeled) ∧
      (Model.ofShares c matchCount labeled).Stochastic labeled.length := by
  obtain ⟨hmake, hm⟩ := Model.make_eq_ok hclasses (List.length_map ..)
    (Tally.stochastic_shares hlabeled)
  refine ⟨?_, hm⟩
  rw [learnSupervised, hclasses, checkTallies_eq_ok (ne_nil_of_checkClasses hclasses) hlabeled]
  exact hmake

theorem make_of_learnSupervised (hlabeled : Tally.Consistent labeled) {m : Model Extended}
    (hm : learnSupervised matchCount labeled = .ok m) :
    ∃ c, (∀ t ∈ labeled, t.Filled c) ∧
      Model.make c (labeled.map Tally.shares) matchCount = .ok m := by
  rw [learnSupervised] at hm
  obtain ⟨⟨⟩, -, hm⟩ := Traversal.bind_eq_ok_iff.mp hm
  obtain ⟨c, hcheck, hmake⟩ := Traversal.bind_eq_ok_iff.mp hm
  exact ⟨c, hlabeled.filled hcheck, hmake⟩

theorem learnUnsupervised_eq_ok (hdraws : Simplex.UnitDraws γ) {classes : Nat} {t : Tally}
    (ht : t.Sound) (hcheck : checkUnsupervised classes r t = .ok c)
    (h : (Problem.solve ⟨c.levels, classes, t.entries, [], 0⟩ r g).1.result = .ok solution) :
    ∃ m, (learnUnsupervised classes r g t).1.result = .ok ⟨m, solution.report⟩ ∧
      m.Stochastic classes ∧ m.weights.Perm solution.weights ∧
        ∃ priors, m.priors = some priors ∧ priors.Perm solution.priors := by
  obtain ⟨hclasses, hr, htallies, -⟩ := checkUnsupervised_eq_ok_iff.mp hcheck
  obtain ⟨rfl, -, -⟩ := (Tally.Consistent.of_sound ht).filled htallies t List.mem_cons_self
  set p : Problem ℝ := ⟨t.comparator.levels, classes, t.entries, [], 0⟩ with hp
  have hsound : p.Sound := by
    refine @Problem.sound_of_tallies t.comparator classes t [] 0 ?_ (Nat.zero_le _)
      ⟨le_rfl, zero_le_one⟩
    intro u hu
    rw [List.mem_singleton.mp hu]
    exact ⟨rfl, ht⟩
  have hpos : 0 < p.classes := Model.classes_pos_of_checkClasses hclasses
  have hsolution := Problem.distributed_of_solve hdraws hsound hpos hr h
  obtain ⟨m, hm, hstochastic⟩ := modelOfUnlabeled_eq_ok hclasses rfl hsolution
  refine ⟨m, ?_, hstochastic⟩
  rw [learnUnsupervised, hcheck]
  change (Problem.solve _ r g).1.result >>= _ = _
  rw [h]
  exact hm

theorem learnSemiSupervised_eq_ok {lambda : ℝ} {unlabeled : Tally}
    (htallies : ∀ t ∈ unlabeled :: labeled, t.Filled c) (hlambda : 0 ≤ lambda ∧ lambda ≤ 1)
    (hr : r.check = .ok ()) (hclasses : checkClasses labeled.length matchCount = .ok ())
    (h : (Problem.solve ⟨c.levels, labeled.length, unlabeled.entries, labeled.map Tally.entries,
      number lambda⟩ r g).1.result = .ok solution)
    (hsolution : solution.Distributed
      ⟨c.levels, labeled.length, unlabeled.entries, labeled.map Tally.entries, lambda⟩) :
    (learnSemiSupervised matchCount (number lambda) r g unlabeled labeled).1.result = .ok
        ⟨⟨c, matchCount, solution.weights, solution.weights.logs, some solution.priors⟩,
          solution.report⟩ ∧
      Model.Stochastic labeled.length
        ⟨c, matchCount, solution.weights, solution.weights.logs, some solution.priors⟩ := by
  obtain ⟨hm, hstochastic⟩ := @modelOfLabeled_eq_ok _ c _ _ hclasses rfl hsolution
  refine ⟨?_, hstochastic⟩
  have hcheck := checkTallies_eq_ok (List.cons_ne_nil _ _) htallies
  rw [learnSemiSupervised, checkLambda_eq_ok_iff.mpr ⟨lambda, rfl, hlambda⟩, hr, hclasses, hcheck]
  change (Problem.solve _ r g).1.result >>= _ = _
  rw [h]
  exact hm

end Learners

/-- Every learner whose arguments are accepted, and whose runs do not fail, returns a model of
probability vectors. -/
theorem learners_stochastic {γ : Type} [Draws γ Extended] (hdraws : Simplex.UnitDraws γ) :
    (∀ matchCount labeled c, Tally.Consistent labeled →
      checkClasses labeled.length matchCount = .ok () → checkTallies labeled = .ok c →
      ∃ m : Model Extended, learnSupervised matchCount labeled = .ok m ∧
        m.Stochastic labeled.length) ∧
    (∀ classes r (g : γ) t c solution, t.Sound → checkUnsupervised classes r t = .ok c →
      (Problem.solve ⟨c.levels, classes, t.entries, [], 0⟩ r g).1.result = .ok solution →
      ∃ m : Model Extended,
        (learnUnsupervised classes r g t).1.result = .ok ⟨m, solution.report⟩ ∧
        m.Stochastic classes ∧ m.weights.Perm solution.weights ∧
        ∃ priors, m.priors = some priors ∧ priors.Perm solution.priors) ∧
    (∀ matchCount lambda r (g : γ) unlabeled labeled c solution,
      Tally.Consistent (unlabeled :: labeled) → checkLambda lambda = .ok () → r.check = .ok () →
      checkClasses labeled.length matchCount = .ok () →
      checkTallies (unlabeled :: labeled) = .ok c →
      (Problem.solve ⟨c.levels, labeled.length, unlabeled.entries, labeled.map Tally.entries,
        lambda⟩ r g).1.result = .ok solution →
      ∃ m : Model Extended,
        (learnSemiSupervised matchCount lambda r g unlabeled labeled).1.result =
          .ok ⟨m, solution.report⟩ ∧
        m.Stochastic labeled.length ∧ m.weights = solution.weights ∧
        m.priors = some solution.priors) := by
  refine ⟨?_, ?_, ?_⟩
  · intro matchCount labeled c hconsistent hclasses htallies
    exact ⟨_, learnSupervised_eq_ok (hconsistent.filled htallies) hclasses⟩
  · intro classes r g t c solution ht hcheck hsolve
    exact learnUnsupervised_eq_ok hdraws ht hcheck hsolve
  · intro matchCount lambda r g unlabeled labeled c solution hconsistent hlambda hr hclasses
      htallies hsolve
    obtain ⟨x, rfl, hx⟩ := checkLambda_eq_ok_iff.mp hlambda
    have hfilled := hconsistent.filled htallies
    have hp := Problem.sound_of_filled hfilled le_rfl hx
    have hpos := Nat.zero_lt_of_lt (Model.checkClasses_eq_ok_iff.mp hclasses).1
    have hsolution := Problem.distributed_of_solve hdraws hp hpos hr hsolve
    obtain ⟨hfit, hm⟩ := learnSemiSupervised_eq_ok hfilled hx hr hclasses hsolve hsolution
    exact ⟨_, hfit, hm, rfl, rfl⟩

/-! ### Models of first names -/

namespace FirstNames

def comparator : RecordComparator :=
  ⟨0, [⟨"first", "first", 0, 0, .exact⟩], false, 2⟩

/-- Most pairs of the same person agree. -/
def same : Tally :=
  ⟨comparator, [⟨0, [0], 1⟩, ⟨1, [1], 3⟩]⟩

/-- Pairs of different persons disagree. -/
def different : Tally :=
  ⟨comparator, [⟨0, [0], 2⟩]⟩

theorem sound_same : same.Sound := by
  simp [Tally.Sound, same, show comparator.levels = [2] from rfl, Fits]

theorem sound_different : different.Sound := by
  simp [Tally.Sound, different, show comparator.levels = [2] from rfl, Fits]

theorem filled : ∀ t ∈ [same, same, different], t.Filled comparator := by
  have hsame : same.Filled comparator := ⟨rfl, sound_same, List.cons_ne_nil _ _⟩
  have hdifferent : different.Filled comparator := ⟨rfl, sound_different, List.cons_ne_nil _ _⟩
  simp [hsame, hdifferent]

noncomputable def problem (labeled : List Tally) (lambda : ℝ) : Problem ℝ :=
  ⟨comparator.levels, 2, same.entries, labeled.map Tally.entries, lambda⟩

noncomputable def drawn (x y z : ℝ) : Estimate ℝ where
  priors := [x, 1 - x]
  weights := [[[y, 1 - y]], [[z, 1 - z]]]
  shares := []

theorem partition_two (g : Generator) : (Simplex.partition 2 g : List Extended × Generator) =
    ([number g.value, number (1 - g.value)], g.next.2) := by
  have hsorted : Simplex.ascending [number g.value] = [number g.value] := List.mergeSort_singleton _
  rw [Simplex.partition]
  simp only [Simplex.drawList, g.draw_eq, hsorted, Simplex.pieces]
  have hzero : number g.value - 0 = number g.value :=
    (Extended.number_sub g.value 0).trans (by rw [sub_zero])
  rw [hzero, Extended.one_sub_number]

theorem exists_start_eq (labeled : List Tally) (lambda : ℝ) (g : Generator) : ∃ shares,
    ((problem labeled lambda).extend.start g : Estimate Extended × Generator).1 =
      ((drawn g.value g.next.2.value g.next.2.next.2.value).withShares shares).extend := by
  obtain ⟨shares, hshares, -⟩ := Simplex.exists_partitions Generator.unitDraws
    ((problem labeled lambda).unlabeled.map fun _ => 2) g.next.2.next.2.next.2
  refine ⟨shares, ?_⟩
  have hlevels : (problem labeled lambda).extend.levels = [2] := rfl
  have hclasses : (problem labeled lambda).extend.classes = 2 := rfl
  have hunlabeled : (problem labeled lambda).extend.unlabeled = (problem labeled lambda).unlabeled :=
    rfl
  rw [Problem.start]
  simp only [hlevels, hclasses, hunlabeled, Simplex.tables, Simplex.partitions, partition_two,
    hshares]
  rfl

theorem start_snd (labeled : List Tally) (lambda : ℝ) (g : Generator) :
    ((problem labeled lambda).extend.start g : Estimate Extended × Generator).2 =
      g.next.2.next.2.next.2.next.2.next.2 := by
  have hlevels : (problem labeled lambda).extend.levels = [2] := rfl
  have hclasses : (problem labeled lambda).extend.classes = 2 := rfl
  have hunlabeled : ((problem labeled lambda).extend.unlabeled.map fun _ => 2) = [2, 2] := rfl
  rw [Problem.start]
  simp only [hlevels, hclasses, hunlabeled, Simplex.tables, Simplex.partitions, partition_two]

/-- If the three draws are positive, a run finds a solution. -/
theorem exists_runFrom_eq_ok {labeled : List Tally} {lambda : ℝ}
    (htallies : ∀ t ∈ same :: labeled, t.Filled comparator) (hlen : labeled.length ≤ 2)
    (hlambda : 0 ≤ lambda ∧ lambda ≤ 1)
    (hlabeled : 0 < lambda → ∀ cls < 2, (labeled.map Tally.entries).getD cls [] ≠ [])
    (r : StopRule) {g : Generator}
    (hdraws : 0 < g.value ∧ 0 < g.next.2.value ∧ 0 < g.next.2.next.2.value) :
    ∃ solution, ((problem labeled lambda).extend.runFrom r
      ((problem labeled lambda).extend.start g).1 #[]).result = .ok solution := by
  have hp : (problem labeled lambda).Sound := Problem.sound_of_filled htallies hlen hlambda
  obtain ⟨hfirst, hsecond, hthird⟩ := hdraws
  have hfirst' := g.value_lt_one
  have hsecond' := g.next.2.value_lt_one
  have hthird' := g.next.2.next.2.value_lt_one
  obtain ⟨shares, hstart⟩ := exists_start_eq labeled lambda g
  set s := drawn g.value g.next.2.value g.next.2.next.2.value with hs
  have hpos : (s.withShares shares).Positive := by
    constructor <;> simp [drawn, Estimate.withShares, *]
  have hnonneg : (s.withShares shares).Nonneg (problem labeled lambda) := by
    refine ⟨rfl, fun w hw => (hpos.priors w hw).le, rfl, ?_, ?_⟩
    · simp [hs, drawn, Estimate.withShares, problem, show comparator.levels = [2] from rfl, RowsFit]
    · exact fun rows hrows row hrow w hw => (hpos.weights rows hrows row hrow w hw).le
  have hstep := Problem.exists_step_of_positive hp Nat.two_pos (List.cons_ne_nil _ _) hlabeled
    hnonneg hpos
  rw [hstart]
  exact Problem.exists_runFrom_eq_ok hp hnonneg hstep r #[]

/-- A generator of which three draws are positive. -/
def generator : Generator :=
  .ofSeed 14

theorem draws_pos : 0 < generator.value ∧ 0 < generator.next.2.value ∧
    0 < generator.next.2.next.2.value :=
  ⟨Generator.value_pos (by decide +kernel), Generator.value_pos (by decide +kernel),
    Generator.value_pos (by decide +kernel)⟩

theorem exists_solve_eq_ok {labeled : List Tally} {lambda : ℝ}
    (htallies : ∀ t ∈ same :: labeled, t.Filled comparator) (hlen : labeled.length ≤ 2)
    (hlambda : 0 ≤ lambda ∧ lambda ≤ 1)
    (hlabeled : 0 < lambda → ∀ cls < 2, (labeled.map Tally.entries).getD cls [] ≠ []) :
    ∃ solution, ((problem labeled lambda).extend.solve {} generator).1.result = .ok solution := by
  obtain ⟨solution, hsolution⟩ := exists_runFrom_eq_ok htallies hlen hlambda hlabeled {} draws_pos
  refine ⟨solution, ?_⟩
  change ((problem labeled lambda).extend.runs {} 1 none generator #[]).1.result = _
  rw [Problem.runs_succ_ok hsolution]
  rfl

end FirstNames

theorem learners_stochastic_firstNames :
    (∃ m : Model Extended, learnSupervised 1 [FirstNames.same, FirstNames.different] = .ok m ∧
      m.Stochastic 2) ∧
    (∃ fit : Fit Extended, (learnUnsupervised 2 {} FirstNames.generator FirstNames.same).1.result =
      .ok fit ∧ fit.model.Stochastic 2) ∧
    (∃ fit : Fit Extended, (learnSemiSupervised 1 (number (1 / 2)) {} FirstNames.generator
      FirstNames.same [FirstNames.same, FirstNames.different]).1.result = .ok fit ∧
        fit.model.Stochastic 2) := by
  obtain ⟨hsupervised, hunsupervised, hsemi⟩ := learners_stochastic Generator.unitDraws
  have hlabeled : ∀ t ∈ [FirstNames.same, FirstNames.different], t.Filled FirstNames.comparator :=
    fun t ht => FirstNames.filled t (List.mem_cons_of_mem _ ht)
  refine ⟨?_, ?_, ?_⟩
  · exact hsupervised 1 _ FirstNames.comparator (.of_filled hlabeled) rfl rfl
  · obtain ⟨solution, hsolution⟩ := @FirstNames.exists_solve_eq_ok [] 0
      (by simpa using FirstNames.filled FirstNames.same List.mem_cons_self) (Nat.zero_le _)
      ⟨le_rfl, zero_le_one⟩ fun h => absurd h (lt_irrefl 0)
    obtain ⟨m, hm, hstochastic, -⟩ := hunsupervised 2 {} FirstNames.generator FirstNames.same
      FirstNames.comparator solution FirstNames.sound_same rfl hsolution
    exact ⟨_, hm, hstochastic⟩
  · obtain ⟨solution, hsolution⟩ := @FirstNames.exists_solve_eq_ok _ (1 / 2) FirstNames.filled
      le_rfl ⟨by norm_num, by norm_num⟩ fun _ cls hcls => by
        interval_cases cls <;> exact List.cons_ne_nil _ _
    obtain ⟨m, hm, hstochastic, -⟩ := hsemi 1 (number (1 / 2)) {} FirstNames.generator
      FirstNames.same _ FirstNames.comparator solution (.of_filled FirstNames.filled)
      (checkLambda_eq_ok_iff.mpr ⟨1 / 2, rfl, by norm_num, by norm_num⟩) rfl rfl rfl hsolution
    exact ⟨_, hm, hstochastic⟩

end Linkage
