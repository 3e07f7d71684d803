import Linkage.Proofs.Estimation.Sizes
import Linkage.Proofs.Exact.Sum
import Linkage.Proofs.Mixture.ClassCounts

/-
# Classes are treated alike

Which class comes first is a matter of naming: a run from an estimate whose classes stand in another
order does what the run from the estimate does, with the classes in that order.  Every sum over the
classes takes their terms in another order, so what is needed of the arithmetic is that the order of
a sum does not matter; beyond that nothing is asked of the numbers.

The two runs go in lockstep.  An expectation step gives the shares in the other order, or fails at
the same pattern.  A maximization step finds the amounts in the other order, so it fails in both or in
neither, but it need not name the same class.  The log-likelihoods agree, and with them all reports and
the stops.  Main statement: `runFrom_relabel`.
-/

namespace Linkage

open Model (pick)

variable {α : Type} {order : List Nat} {n : Nat}

/-! ## Picking from ranges -/

namespace Model

variable {β : Type} {xs : List β}

theorem lt_of_mem_order (horder : order.Perm (List.range n)) : ∀ j ∈ order, j < n :=
  fun _ hj => List.mem_range.mp (horder.mem_iff.mp hj)

theorem pick_nil (order : List Nat) : pick order ([] : List β) = [] :=
  List.filterMap_eq_nil_iff.mpr fun _ _ => rfl

theorem getD_pick (h : ∀ j ∈ order, j < xs.length) {k : Nat} (hk : k < order.length) (d : β) :
    (pick order xs).getD k d = xs.getD order[k] d := by
  rw [pick_eq_map d h, List.getD_eq_getElem _ _ (by rwa [List.length_map]), List.getElem_map]

theorem pick_map_range (h : ∀ j ∈ order, j < n) (f : Nat → β) :
    pick order ((List.range n).map f) = order.map f := by
  rw [pick_eq_map (f 0) (by rwa [List.length_map, List.length_range])]
  refine List.map_congr_left fun j hj => ?_
  rw [List.getD_eq_getElem _ _ (by rw [List.length_map, List.length_range]; exact h j hj),
    List.getElem_map, List.getElem_range]

theorem map_range_eq_pick (horder : order.Perm (List.range n)) {f g : Nat → β}
    (h : ∀ k (hk : k < order.length), g k = f order[k]) :
    (List.range n).map g = pick order ((List.range n).map f) := by
  have hlength : order.length = n := horder.length_eq.trans List.length_range
  rw [pick_map_range (lt_of_mem_order horder), ← map_range_eq_map order h, hlength]

theorem pick_zipWith {γ δ : Type} (order : List Nat) (f : β → γ → δ) {xs : List β} {ys : List γ}
    (h : xs.length = ys.length) :
    pick order (xs.zipWith f ys) = (pick order xs).zipWith f (pick order ys) := by
  rw [← List.map_uncurry_zip_eq_zipWith, pick_map, pick_zip order h, List.map_uncurry_zip_eq_zipWith]

end Model

open Model (lt_of_mem_order pick_perm pick_map pick_zip)

/-! ## Estimates and problems -/

/-- The estimate with its classes in another order. -/
def Estimate.relabel (order : List Nat) (s : Estimate α) : Estimate α where
  priors := pick order s.priors
  weights := pick order s.weights
  shares := s.shares.map (pick order)

/-- The solution with its classes in another order, and the same report. -/
def Solution.relabel (order : List Nat) (s : Solution α) : Solution α where
  priors := pick order s.priors
  weights := pick order s.weights
  report := s.report

def Problem.relabel (order : List Nat) (p : Problem α) : Problem α :=
  { p with labeled := pick order p.labeled }

/-- A result and the result with its classes in another order, or two failures, which need not be of
the same class. -/
inductive Lockstep {β : Type} (relabel : β → β) : Except Error β → Except Error β → Prop
  | ok (x : β) : Lockstep relabel (.ok x) (.ok (relabel x))
  | error (e e' : Error) : Lockstep relabel (.error e) (.error e')

section Lockstep

variable {β : Type} {relabel : β → β} {x y : Except Error β}

theorem Lockstep.exists_ok_iff (h : Lockstep relabel x y) :
    (∃ b, y = .ok b) ↔ ∃ a, x = .ok a := by
  cases h with
  | ok a => simp
  | error e e' => simp

theorem Lockstep.eq_ok (h : Lockstep relabel x y) {a : β} (ha : x = .ok a) :
    y = .ok (relabel a) := by
  subst ha
  cases h
  rfl

end Lockstep

namespace Problem

variable [Arithmetic α] {p : Problem α} {s u : Estimate α}

/-! ## Amounts -/

section Amounts

variable (horder : order.Perm (List.range p.classes)) (hs : s.OfClasses p.classes)
  (hlabels : p.labeled = [] ∨ p.labeled.length = p.classes)

include horder hs hlabels

theorem mass_relabel {k : Nat} (hk : k < order.length) :
    (p.relabel order).mass (s.relabel order) k = p.mass s order[k] := by
  have hlabeled : (pick order p.labeled).getD k [] = p.labeled.getD order[k] [] := by
    rcases hlabels with hnone | hall
    · rw [hnone, Model.pick_nil]
      rfl
    · exact Model.getD_pick (hall.symm ▸ lt_of_mem_order horder) hk []
  have hentries : p.unlabeled.zipWith (fun e row => Mass.mk e.pattern
      ((1 - p.lambda) * row.getD k 0 * (e.count : α))) (s.shares.map (pick order)) =
      p.unlabeled.zipWith (fun e row => Mass.mk e.pattern
        ((1 - p.lambda) * row.getD order[k] 0 * (e.count : α))) s.shares := by
    rw [List.zipWith_map_right, ← List.map_uncurry_zip_eq_zipWith, ← List.map_uncurry_zip_eq_zipWith]
    refine List.map_congr_left fun z hz => ?_
    have hrow : z.2.length = p.classes := hs.shares z.2 (List.of_mem_zip hz).2
    rw [Function.uncurry, Function.uncurry,
      Model.getD_pick (hrow.symm ▸ lt_of_mem_order horder) hk 0]
  rw [mass, mass]
  congr 1
  · simp only [labeledMass, relabel, hlabeled]
  · simp only [unlabeledMass, relabel, Estimate.relabel, hentries]

/-- Whatever is found from the amounts of the classes is found in the other order. -/
theorem map_mass_relabel {β : Type} (f : List (Mass α) → β) :
    ((List.range p.classes).map fun cls => f ((p.relabel order).mass (s.relabel order) cls)) =
      pick order ((List.range p.classes).map fun cls => f (p.mass s cls)) :=
  Model.map_range_eq_pick horder fun k hk => by rw [mass_relabel horder hs hlabels hk]

end Amounts

variable [@Std.Associative α (· + ·)] [@Std.Commutative α (· + ·)]

/-! ## A step -/

theorem sharesOf_relabel (horder : order.Perm (List.range n)) (hs : s.OfClasses n)
    (e : Tally.Entry) : sharesOf (s.relabel order) e = (sharesOf s e).map (pick order) := by
  have hlength : s.priors.length = s.weights.length := hs.priors.trans hs.weights.symm
  rw [sharesOf, sharesOf, Estimate.relabel]
  set likelihoods := s.priors.zipWith (fun prior rows => likelihood prior rows e.pattern) s.weights
    with hlikelihoods
  have hclasses : likelihoods.length = n := by
    rw [hlikelihoods, List.length_zipWith, hs.priors, hs.weights, Nat.min_self]
  have hperm : (pick order likelihoods).Perm likelihoods := pick_perm (hclasses.symm ▸ horder)
  simp only [← Model.pick_zipWith order _ hlength, ← hlikelihoods, hperm.foldl_op_eq, ← pick_map]
  split <;> rfl

theorem expect_relabel (horder : order.Perm (List.range n)) (hs : s.OfClasses n) :
    (p.relabel order).expect (s.relabel order) = (p.expect s).map (Estimate.relabel order) := by
  rw [expect, expect]
  by_cases h : p.lambda < 1
  · rw [if_pos h, if_pos (show (p.relabel order).lambda < 1 from h), relabel,
      Traversal.mapM_map_result fun e _ => sharesOf_relabel horder hs e]
    cases p.unlabeled.mapM (sharesOf s) <;> rfl
  · rw [if_neg h, if_neg (show ¬(p.relabel order).lambda < 1 from h)]
    rfl

section Step

variable (horder : order.Perm (List.range p.classes)) (hs : s.OfClasses p.classes)
  (hlabels : p.labeled = [] ∨ p.labeled.length = p.classes)

include horder hs hlabels

theorem maximum_relabel :
    (p.relabel order).maximum (s.relabel order) = (p.maximum s).relabel order := by
  set all := Arithmetic.sum ((List.range p.classes).map fun cls => Mass.total (p.mass s cls)) with hall
  have hsum : Arithmetic.sum ((List.range p.classes).map fun cls =>
      Mass.total ((p.relabel order).mass (s.relabel order) cls)) = all := by
    rw [map_mass_relabel horder hs hlabels, hall]
    refine (pick_perm ?_).foldl_op_eq
    rwa [List.length_map, List.length_range]
  have hpriors : ((List.range p.classes).map fun cls =>
      Mass.total ((p.relabel order).mass (s.relabel order) cls) / Arithmetic.sum
        ((List.range p.classes).map fun cls =>
          Mass.total ((p.relabel order).mass (s.relabel order) cls))) =
      pick order ((List.range p.classes).map fun cls => Mass.total (p.mass s cls) / all) := by
    rw [hsum]
    exact map_mass_relabel horder hs hlabels fun ms => Mass.total ms / all
  have hweights := map_mass_relabel horder hs hlabels fun ms =>
    Mass.normalize (Mass.table p.levels ms) (Mass.total ms)
  exact congrArg₂ (fun priors weights => Estimate.mk priors weights (s.shares.map (pick order)))
    hpriors hweights

/-- A class without any amount stays one, wherever it stands. -/
theorem maximize_relabel : Lockstep (Estimate.relabel order) (p.maximize s)
    ((p.relabel order).maximize (s.relabel order)) := by
  have hclasses : (p.relabel order).classes = p.classes := rfl
  rw [maximize_eq, maximize_eq, maximum_relabel horder hs hlabels, hclasses,
    map_mass_relabel horder hs hlabels]
  set totals := (List.range p.classes).map fun cls => Mass.total (p.mass s cls) with htotals
  have hlength : totals.length = p.classes := by rw [htotals, List.length_map, List.length_range]
  have hperm : (pick order totals).Perm totals := pick_perm (hlength.symm ▸ horder)
  have hcheck : checkMass (pick order totals) = .ok () ↔ checkMass totals = .ok () := by
    rw [checkMass_eq_ok_iff, checkMass_eq_ok_iff]
    exact forall_congr' fun x => imp_congr_left hperm.mem_iff
  cases h : checkMass totals with
  | ok _ =>
      rw [hcheck.mpr h]
      exact .ok _
  | error e =>
      cases h' : checkMass (pick order totals) with
      | ok _ => exact absurd (h.symm.trans (hcheck.mp h')) nofun
      | error e' => exact .error e e'

theorem step_relabel : Lockstep (Estimate.relabel order) (p.step s)
    ((p.relabel order).step (s.relabel order)) := by
  rw [step, step, expect_relabel horder hs]
  cases h : p.expect s with
  | error e => exact .error e e
  | ok v => exact maximize_relabel horder (ofClasses_expect hs h) hlabels

end Step

/-! ## The log-likelihood -/

/-- What the labeled entries of a class add to the log-likelihood. -/
def labeledTerms (x : List Tally.Entry × α × List (List α)) : List α :=
  x.1.map fun e => (e.count : α) * logLikelihoodIn x.2.1 x.2.2 e.pattern

omit [@Std.Associative α (· + ·)] [@Std.Commutative α (· + ·)] in
theorem labeledLogLikelihood_eq (p : Problem α) (s : Estimate α) : p.labeledLogLikelihood s =
    ((p.labeled.zip (s.priors.zip s.weights)).flatMap labeledTerms).foldl (· + ·) 0 := by
  rw [List.foldl_flatMap]
  simp only [labeledTerms, List.foldl_map]
  rfl

/-- What a class adds to the expected log-likelihood of an entry, if it has a share of it. -/
def expectedTerms (pattern : Pattern) (x : α × α × List (List α)) : List α :=
  if x.1 == 0 then [] else [x.1 * logLikelihoodIn x.2.1 x.2.2 pattern]

omit [@Std.Associative α (· + ·)] [@Std.Commutative α (· + ·)] in
theorem expectedLogLikelihood_eq (s : Estimate α) (pattern : Pattern) (shares : List α) :
    expectedLogLikelihood s pattern shares =
      ((shares.zip (s.priors.zip s.weights)).flatMap (expectedTerms pattern)).foldl (· + ·) 0 := by
  rw [List.foldl_flatMap, expectedLogLikelihood]
  refine List.foldl_ext _ _ 0 ?_
  rintro sum ⟨share, prior, rows⟩ -
  cases h : share == 0 <;> simp [expectedTerms, h]

theorem foldl_flatMap_relabel {β : Type} (horder : order.Perm (List.range n)) (hs : s.OfClasses n)
    {xs : List β} (hxs : xs.length = n) (terms : β × α × List (List α) → List α) :
    (((pick order xs).zip ((pick order s.priors).zip (pick order s.weights))).flatMap terms).foldl
        (· + ·) 0 =
      ((xs.zip (s.priors.zip s.weights)).flatMap terms).foldl (· + ·) 0 := by
  have hinner : (s.priors.zip s.weights).length = n := by
    rw [List.length_zip, hs.priors, hs.weights, Nat.min_self]
  have houter : (xs.zip (s.priors.zip s.weights)).length = n := by
    rw [List.length_zip, hxs, hinner, Nat.min_self]
  rw [← pick_zip order (hs.priors.trans hs.weights.symm), ← pick_zip order (hxs.trans hinner.symm)]
  exact ((pick_perm (houter.symm ▸ horder)).flatMap_right terms).foldl_op_eq

theorem expectedLogLikelihood_relabel (horder : order.Perm (List.range n)) (hs : s.OfClasses n)
    (pattern : Pattern) {shares : List α} (hshares : shares.length = n) :
    expectedLogLikelihood (s.relabel order) pattern (pick order shares) =
      expectedLogLikelihood s pattern shares := by
  rw [expectedLogLikelihood_eq, expectedLogLikelihood_eq]
  exact foldl_flatMap_relabel horder hs hshares _

theorem unlabeledLogLikelihood_relabel (horder : order.Perm (List.range n)) (hs : s.OfClasses n) :
    (p.relabel order).unlabeledLogLikelihood (s.relabel order) = p.unlabeledLogLikelihood s := by
  simp only [unlabeledLogLikelihood, relabel]
  rw [show (s.relabel order).shares = s.shares.map (pick order) from rfl, List.zip_map_right,
    List.foldl_map]
  refine List.foldl_ext _ _ 0 fun sum z hz => ?_
  have hrow : z.2.length = n := hs.shares z.2 (List.of_mem_zip hz).2
  simp only [Prod.map, id, expectedLogLikelihood_relabel horder hs _ hrow]

theorem labeledLogLikelihood_relabel (horder : order.Perm (List.range p.classes))
    (hs : s.OfClasses p.classes) (hlabels : p.labeled = [] ∨ p.labeled.length = p.classes) :
    (p.relabel order).labeledLogLikelihood (s.relabel order) = p.labeledLogLikelihood s := by
  rw [labeledLogLikelihood_eq, labeledLogLikelihood_eq]
  rcases hlabels with hnone | hall
  · rw [relabel, hnone, Model.pick_nil]
    rfl
  · exact foldl_flatMap_relabel horder hs hall _

theorem logLikelihood_relabel (horder : order.Perm (List.range p.classes))
    (hs : s.OfClasses p.classes) (hlabels : p.labeled = [] ∨ p.labeled.length = p.classes) :
    (p.relabel order).logLikelihood (s.relabel order) = p.logLikelihood s := by
  rw [logLikelihood, logLikelihood, labeledLogLikelihood_relabel horder hs hlabels,
    unlabeledLogLikelihood_relabel horder hs]
  rfl

/-! ## A run -/

/-- Runs in lockstep report the same, and end in the same way after as many steps. -/
theorem continueRun_relabel (horder : order.Perm (List.range p.classes)) (hs : s.OfClasses p.classes)
    (hlabels : p.labeled = [] ∨ p.labeled.length = p.classes) (tolerance : α) (left done : Nat)
    (old : α) (events : Array (Event α)) :
    let run := p.continueRun tolerance left done s old events
    let run' := (p.relabel order).continueRun tolerance left done (s.relabel order) old events
    run'.events = run.events ∧ Lockstep (Solution.relabel order) run.result run'.result := by
  induction left generalizing s done old events with
  | zero => exact ⟨rfl, .ok _⟩
  | succ left ih =>
      have hstep := step_relabel horder hs hlabels
      generalize hrun : p.step s = result, hrun' : (p.relabel order).step (s.relabel order) = result'
        at hstep
      cases hstep with
      | error e e' =>
          rw [continueRun_error hrun, continueRun_error hrun']
          exact ⟨rfl, .error e e'⟩
      | ok u =>
          have hu := ofClasses_step hs hrun
          rw [continueRun_succ hrun, continueRun_succ hrun', logLikelihood_relabel horder hu hlabels]
          split
          case isTrue => exact ⟨rfl, .ok _⟩
          case isFalse => exact ih hu _ _ _

/-- With exact numbers classes are treated alike.  Let the classes of an estimate stand in another
order, their priors, tables and shares, and the labels of the problem with them; it labels all of its
classes or none.  Then the run from this estimate reports the same iterations, the same
log-likelihoods and the same end.  It has a solution just if the other run has one, and then it has
the same one, with its classes in this order. -/
theorem runFrom_relabel (p : Problem Extended) (r : StopRule) (s : Estimate Extended)
    (events : Array (Event Extended)) {order : List Nat}
    (horder : order.Perm (List.range p.classes)) (hs : s.OfClasses p.classes)
    (hlabels : p.labeled = [] ∨ p.labeled.length = p.classes) :
    let run := p.runFrom r s events
    let run' := (p.relabel order).runFrom r (s.relabel order) events
    run'.events = run.events ∧
      ((∃ solution, run'.result = .ok solution) ↔ ∃ solution, run.result = .ok solution) ∧
      ∀ solution, run.result = .ok solution → run'.result = .ok (solution.relabel order) := by
  simp only [runFrom, logLikelihood_relabel horder hs hlabels]
  obtain ⟨hevents, hresult⟩ := continueRun_relabel horder hs hlabels
    (Arithmetic.ofFloat r.tolerance) r.maxIterations 0 (p.logLikelihood s) events
  exact ⟨hevents, hresult.exists_ok_iff, fun _ h => hresult.eq_ok h⟩

/-! ### Three classes -/

namespace ThreeClasses

/-- A part of a whole. -/
noncomputable def part (n whole : Nat) : Extended :=
  .number (n / whole)

/-- Two patterns, with labeled pairs of three classes and pairs without a label. -/
noncomputable def problem : Problem Extended where
  levels := [2]
  classes := 3
  unlabeled := [⟨0, [0], 4⟩, ⟨1, [1], 2⟩]
  labeled := [[⟨0, [0], 1⟩], [⟨1, [1], 2⟩], [⟨0, [0], 1⟩, ⟨1, [1], 1⟩]]
  lambda := part 1 2

/-- An estimate in which the last class has no pairs with the second pattern. -/
noncomputable def guess : Estimate Extended where
  priors := [part 1 2, part 1 3, part 1 6]
  weights := [[[part 1 3, part 2 3]], [[part 1 2, part 1 2]], [[1, 0]]]
  shares := [[part 1 2, part 1 2, 0], [part 1 4, part 3 4, 0]]

end ThreeClasses

open ThreeClasses in
/-- The last class comes first. -/
theorem runFrom_relabel_threeClasses :
    let run := problem.runFrom {} guess #[]
    let run' := (problem.relabel [2, 0, 1]).runFrom {} (guess.relabel [2, 0, 1]) #[]
    ([2, 0, 1].Perm (List.range problem.classes) ∧ guess.OfClasses problem.classes ∧
      problem.labeled.length = problem.classes) ∧
    (guess.relabel [2, 0, 1]).priors = [part 1 6, part 1 2, part 1 3] ∧
    run'.events = run.events ∧
    ((∃ solution, run'.result = .ok solution) ↔ ∃ solution, run.result = .ok solution) ∧
    ∀ solution, run.result = .ok solution → run'.result = .ok (solution.relabel [2, 0, 1]) := by
  have horder : [2, 0, 1].Perm (List.range problem.classes) := by
    change [2, 0, 1].Perm [0, 1, 2]
    decide
  have hguess : guess.OfClasses problem.classes := ⟨rfl, rfl, by simp [guess, problem]⟩
  exact ⟨⟨horder, hguess, rfl⟩, rfl, runFrom_relabel problem {} guess #[] horder hguess (.inr rfl)⟩

end Problem

end Linkage
