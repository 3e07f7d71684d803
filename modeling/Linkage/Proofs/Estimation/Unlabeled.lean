import Linkage.Proofs.Estimation.Learner

/-
# Estimation from unlabeled pairs alone

At the blend 0 no step and no log-likelihood looks at a labeled pair, and nothing is drawn for one.
So the runs with labeled pairs are those without them, event by event and draw by draw, and they
find the same parameters.  What is left to the learner of unlabeled pairs is to choose the match
class: the first one with the least prior.

The arithmetic is any: of its operations nothing is used.  Of its order it is used that it is one,
because otherwise there is no least prior.
-/

namespace Linkage

namespace Problem

variable {γ α : Type} [Arithmetic α] [Draws γ α] {p : Problem α}

/-- The problem without its labeled counts. -/
def withoutLabels (p : Problem α) : Problem α :=
  { p with labeled := [] }

/-! ## Runs without labeled counts -/

omit [Draws γ α] in
theorem mass_withoutLabels (h : ¬ 0 < p.lambda) (s : Estimate α) (cls : Nat) :
    p.withoutLabels.mass s cls = p.mass s cls := by
  have h' : ¬ 0 < p.withoutLabels.lambda := h
  rw [mass, mass, labeledMass, labeledMass, if_neg h, if_neg h']
  rfl

theorem step_withoutLabels (h : ¬ 0 < p.lambda) (s : Estimate α) :
    p.withoutLabels.step s = p.step s := by
  have hmaximize : ∀ t, p.withoutLabels.maximize t = p.maximize t := by
    intro t
    rw [maximize, maximize, funext (mass_withoutLabels h t)]
    rfl
  have hexpect : p.withoutLabels.expect s = p.expect s := rfl
  rw [step, step, hexpect, funext hmaximize]

theorem logLikelihood_withoutLabels (h : ¬ 0 < p.lambda) (s : Estimate α) :
    p.withoutLabels.logLikelihood s = p.logLikelihood s := by
  have h' : ¬ 0 < p.withoutLabels.lambda := h
  rw [logLikelihood, logLikelihood, if_neg h, if_neg h']
  rfl

theorem continueRun_withoutLabels (h : ¬ 0 < p.lambda) (tolerance : α) (left done : Nat)
    (s : Estimate α) (old : α) (events : Array (Event α)) :
    p.withoutLabels.continueRun tolerance left done s old events =
      p.continueRun tolerance left done s old events := by
  induction left generalizing done s old events with
  | zero => rfl
  | succ left ih =>
      rw [continueRun, continueRun, step_withoutLabels h]
      cases p.step s with
      | error e => rfl
      | ok t => simp only [logLikelihood_withoutLabels h, ih]

theorem runs_withoutLabels (h : ¬ 0 < p.lambda) (r : StopRule) (left : Nat)
    (best : Option (Solution α)) (g : γ) (events : Array (Event α)) :
    p.withoutLabels.runs r left best g events = p.runs r left best g events := by
  induction left generalizing best g events with
  | zero => cases best <;> rfl
  | succ left ih =>
      have hstart : p.withoutLabels.start g = p.start g := rfl
      have hrun : ∀ s, p.withoutLabels.runFrom r s events = p.runFrom r s events := by
        intro s
        rw [runFrom, runFrom, logLikelihood_withoutLabels h, continueRun_withoutLabels h]
      rw [runs, runs, hstart]
      simp only [hrun, ih]

/-! ## How many classes a run finds -/

theorem Steps.weights_length {n : Nat} {s u : Estimate α} (h : p.Steps n s u)
    (hs : s.weights.length = p.classes) : u.weights.length = p.classes := by
  induction h with
  | refl => exact hs
  | cons hstep _ ih =>
      obtain ⟨t, -, ht⟩ := Traversal.bind_eq_ok_iff.mp hstep
      obtain ⟨-, rfl⟩ := maximize_eq_ok_iff.mp ht
      exact ih (by simp [maximum])

theorem length_tables (lengths : List Nat) (count : Nat) (g : γ) :
    (Simplex.tables lengths count g : List (List (List α)) × γ).1.length = count := by
  induction count generalizing g with
  | zero => rfl
  | succ count ih => exact congrArg (· + 1) (ih _)

theorem weights_length_of_solve {r : StopRule} {g : γ} {solution : Solution α}
    (h : (p.solve r g).1.result = .ok solution) : solution.weights.length = p.classes := by
  refine of_solve (q := fun solution => solution.weights.length = p.classes) ?_ h
  intro g events new hnew
  obtain ⟨n, u, hsteps, -, hweights, -⟩ := steps_of_continueRun hnew
  rw [hweights]
  exact hsteps.weights_length (length_tables p.levels p.classes _)

end Problem

/-! ## The class with the least prior -/

section Least

variable {α : Type} [Arithmetic α]

/-- A position of a least element, with only greater elements before it. -/
def IsFirstLeast (xs : List α) (i : Nat) : Prop :=
  ∃ x, xs[i]? = some x ∧ (∀ y ∈ xs, (Arithmetic.order x y).isLE = true) ∧
    ∀ k < i, ∀ y, xs[k]? = some y → Arithmetic.order x y = .lt

theorem isFirstLeast_leastIndex [Std.TransCmp (@Arithmetic.order α _)] {xs : List α}
    (hne : xs ≠ []) : IsFirstLeast xs (leastIndex xs) := by
  induction xs with
  | nil => exact absurd rfl hne
  | cons x xs ih =>
      cases xs with
      | nil =>
          refine ⟨x, rfl, ?_, fun k hk => absurd hk (Nat.not_lt_zero k)⟩
          intro y hy
          rw [List.mem_singleton.mp hy]
          exact Std.ReflCmp.isLE_rfl
      | cons z zs =>
          obtain ⟨y, hy, hleast, hfirst⟩ := ih (List.cons_ne_nil z zs)
          rw [leastIndex]
          simp only [hy]
          split
          case isTrue hlt =>
            refine ⟨y, hy, List.forall_mem_cons.mpr ⟨?_, hleast⟩, ?_⟩
            · rw [hlt]
              rfl
            · intro k hk w hw
              cases k with
              | zero => exact Option.some.inj hw ▸ hlt
              | succ k => exact hfirst k (Nat.lt_of_succ_lt_succ hk) w hw
          case isFalse hge =>
            have hle : (Arithmetic.order x y).isLE = true := by
              rw [Ordering.isLE_iff_ne_gt, Std.OrientedCmp.gt_iff_lt]
              exact hge
            refine ⟨x, rfl, List.forall_mem_cons.mpr ⟨Std.ReflCmp.isLE_rfl, ?_⟩,
              fun k hk => absurd hk (Nat.not_lt_zero k)⟩
            intro w hw
            exact Std.TransCmp.isLE_trans hle (hleast w hw)

end Least

/-! ## Models with one match class -/

namespace Model

variable {α β : Type}

theorem pick_classOrder_singleton {xs : List β} {j : Nat} {x : β} (h : xs[j]? = some x)
    (classes : Nat) : ∃ rest, pick (classOrder classes [j]) xs = x :: rest ∧ ∀ y ∈ rest, y ∈ xs := by
  refine ⟨pick ((List.range classes).filter fun i => !List.contains [j] i) xs, ?_, ?_⟩
  · rw [pick, classOrder, List.singleton_append, List.filterMap_cons, h]
    rfl
  · intro y hy
    obtain ⟨i, -, hi⟩ := List.mem_filterMap.mp hy
    exact List.mem_of_getElem? hi

theorem withMatchClasses_singleton [Arithmetic α] {m : Model α} {j : Nat} (hlen : 2 ≤ m.classCount)
    (hj : j < m.classCount) : m.withMatchClasses [j] = .ok { m with
      matchCount := 1
      weights := pick (classOrder m.classCount [j]) m.weights
      logWeights := pick (classOrder m.classCount [j]) m.logWeights
      priors := m.priors.map (pick (classOrder m.classCount [j])) } := by
  have hclasses : checkClasses m.classCount [j].length = .ok () :=
    checkClasses_eq_ok_iff.mpr ⟨hlen, Nat.one_pos, hlen⟩
  rw [withMatchClasses, hclasses]
  simp [isDistinct, hj, bind, Except.bind, pure, Except.pure]

end Model

section Models

variable {α : Type} [Arithmetic α] {c : RecordComparator} {matchCount : Nat} {s : Solution α}

/-- Classes that some of them can match can have one match class. -/
theorem checkClasses_one {classes : Nat} (h : checkClasses classes matchCount = .ok ()) :
    checkClasses classes 1 = .ok () := by
  obtain ⟨hlen, -⟩ := Model.checkClasses_eq_ok_iff.mp h
  exact Model.checkClasses_eq_ok_iff.mpr ⟨hlen, Nat.one_pos, hlen⟩

/-- The model without labels is that with labels, after the choice of the match class. -/
theorem modelOfUnlabeled_eq (hclasses : checkClasses s.weights.length matchCount = .ok ()) :
    modelOfUnlabeled c s = do
      let fit ← modelOfLabeled c matchCount s
      let m ← fit.model.withMatchClasses [leastIndex s.priors]
      return ⟨m, fit.report⟩ := by
  rw [modelOfUnlabeled, modelOfLabeled, Model.make, Model.make, hclasses, checkClasses_one hclasses]
  cases s.weights.check c.levels with
  | error e => rfl
  | ok _ =>
      simp only [Model.withPriors, Model.classCount, bind, Except.bind, pure, Except.pure]
      by_cases hpriors : s.priors.length = s.weights.length
      · simp only [hpriors, ne_eq, not_true_eq_false, if_false]
        rfl
      · simp only [hpriors, ne_eq, not_false_eq_true, if_true]

theorem modelOfLabeled_spec {fit : Fit α} (h : modelOfLabeled c matchCount s = .ok fit) :
    2 ≤ fit.model.classCount ∧ fit.model.priors = some s.priors ∧
      s.priors.length = fit.model.classCount := by
  obtain ⟨m, hmake, h⟩ := Traversal.bind_eq_ok_iff.mp h
  obtain ⟨hclasses, -, rfl⟩ := Model.make_eq_ok_iff.mp hmake
  obtain ⟨m, hpriors, h⟩ := Traversal.bind_eq_ok_iff.mp h
  obtain rfl := Except.ok.inj h
  rw [Model.withPriors] at hpriors
  split at hpriors
  case isTrue => cases hpriors
  case isFalse hlen =>
    obtain rfl := Except.ok.inj hpriors
    exact ⟨(Model.checkClasses_eq_ok_iff.mp hclasses).1, rfl, not_not.mp hlen⟩

/-- With labels and without them either no model is made, with one failure, or the model without
labels is that with labels after the first class of the least prior was made its match class. -/
theorem modelOfUnlabeled_cases [Std.TransCmp (@Arithmetic.order α _)]
    (hclasses : checkClasses s.weights.length matchCount = .ok ()) :
    (∃ e, modelOfLabeled c matchCount s = .error e ∧ modelOfUnlabeled c s = .error e) ∨
      ∃ fit m priors j, modelOfLabeled c matchCount s = .ok fit ∧
        modelOfUnlabeled c s = .ok ⟨m, fit.report⟩ ∧ fit.model.priors = some priors ∧
        IsFirstLeast priors j ∧ fit.model.withMatchClasses [j] = .ok m ∧
        ∃ x xs, m.priors = some (x :: xs) ∧ ∀ y ∈ xs, (Arithmetic.order x y).isLE = true := by
  rw [modelOfUnlabeled_eq hclasses]
  cases hfit : modelOfLabeled c matchCount s with
  | error e => exact .inl ⟨e, rfl, rfl⟩
  | ok fit =>
      obtain ⟨htwo, hpriors, hcount⟩ := modelOfLabeled_spec hfit
      have hne : s.priors ≠ [] := List.ne_nil_of_length_pos (by omega)
      have hleast := isFirstLeast_leastIndex hne
      have ⟨x, hx, hxleast, _⟩ := hleast
      have hj : leastIndex s.priors < fit.model.classCount :=
        hcount ▸ (List.getElem?_eq_some_iff.mp hx).1
      have hm := Model.withMatchClasses_singleton htwo hj
      obtain ⟨rest, hrest, hmem⟩ := Model.pick_classOrder_singleton hx fit.model.classCount
      refine .inr ⟨fit, _, s.priors, leastIndex s.priors, rfl, ?_, hpriors, hleast, hm, x, rest, ?_,
        fun y hy => hxleast y (hmem y hy)⟩
      · exact (Traversal.bind_of_ok rfl).trans (Traversal.bind_of_ok hm)
      · simp only [hpriors, Option.map_some, hrest]

end Models

/-! ## The two learners -/

theorem checkTallies_cons {t : Tally} {ts : List Tally}
    (h : ∀ u ∈ ts, u.sameComparator t = true ∧ u.isEmpty = false) :
    checkTallies (t :: ts) = checkTallies [t] := by
  have hts : (ts.forM fun u : Tally =>
      if !u.sameComparator t then .error .comparatorMismatch
      else if u.isEmpty then .error (.invalidModel .emptyTally)
      else .ok () : Except Error Unit) = .ok () := by
    refine Traversal.forM_eq_ok_iff.mpr fun u hu => ?_
    simp [(h u hu).1, (h u hu).2]
  rw [checkTallies, checkTallies]
  simp only [List.forM_eq_forM, List.forM_cons, List.forM_nil] at hts ⊢
  rw [hts]
  rfl

/-- At the blend 0 the learner of labeled and unlabeled pairs and that of unlabeled pairs do the
same, whatever the arithmetic computes: they draw and report the same, and they fail alike.  If they
do not fail, the model without labels is that with labels, with the first class of the least prior
for its match class.  There are never more tallies than a vector has places, so that the number of
classes is not refused for it. -/
theorem learnSemiSupervised_zero {γ α : Type} [Arithmetic α] [Draws γ α]
    [Std.TransCmp (@Arithmetic.order α _)] (hzero : ¬ (0 : α) < 0)
    (hblend : checkLambda (0 : α) = .ok ()) {matchCount : Nat} {r : StopRule} {unlabeled : Tally}
    {labeled : List Tally} (hr : r.check = .ok ())
    (hclasses : checkClasses labeled.length matchCount = .ok ())
    (hlabeled : ∀ t ∈ labeled, t.sameComparator unlabeled = true ∧ t.isEmpty = false) (g : γ) :
    ∃ (events : Array (Event α)) (rest : γ) (both alone : Except Error (Fit α)),
      learnSemiSupervised matchCount (0 : α) r g unlabeled labeled = (⟨events, both⟩, rest) ∧
      (labeled.length < Simplex.limit →
        learnUnsupervised labeled.length r g unlabeled = (⟨events, alone⟩, rest)) ∧
      ((∃ e, both = .error e ∧ alone = .error e) ∨
        ∃ fit m priors j, both = .ok fit ∧ alone = .ok ⟨m, fit.report⟩ ∧
          fit.model.priors = some priors ∧ IsFirstLeast priors j ∧
          fit.model.withMatchClasses [j] = .ok m ∧
          ∃ x xs, m.priors = some (x :: xs) ∧ ∀ y ∈ xs, (Arithmetic.order x y).isLE = true) := by
  have hcheck (hroom : labeled.length < Simplex.limit) :
      checkUnsupervised labeled.length r unlabeled = checkTallies (unlabeled :: labeled) := by
    rw [checkUnsupervised, checkClasses_one hclasses, hr, checkTallies_cons hlabeled,
      Simplex.checkLength_eq_ok_iff.mpr hroom]
    cases checkTallies [unlabeled] <;> rfl
  have hchecks : (do
      checkLambda (0 : α)
      r.check
      checkClasses labeled.length matchCount
      checkTallies (unlabeled :: labeled)) = checkTallies (unlabeled :: labeled) := by
    rw [hblend, hr, hclasses]
    rfl
  cases htallies : checkTallies (unlabeled :: labeled) with
  | error e =>
      refine ⟨#[], g, .error e, .error e, ?_, ?_, .inl ⟨e, rfl, rfl⟩⟩
      · rw [learnSemiSupervised, hchecks, htallies]
        rfl
      · intro hroom
        rw [learnUnsupervised, hcheck hroom, htallies]
        rfl
  | ok c =>
      set p : Problem α :=
        ⟨c.levels, labeled.length, unlabeled.entries, labeled.map Tally.entries, 0⟩ with hp
      have hsolve : p.withoutLabels.solve r g = p.solve r g :=
        Problem.runs_withoutLabels hzero r r.restarts none g #[]
      have hboth : learnSemiSupervised matchCount (0 : α) r g unlabeled labeled =
          ((p.solve r g).1.andThen (modelOfLabeled c matchCount), (p.solve r g).2) := by
        rw [learnSemiSupervised, hchecks, htallies]
      have halone (hroom : labeled.length < Simplex.limit) :
          learnUnsupervised labeled.length r g unlabeled =
            ((p.solve r g).1.andThen (modelOfUnlabeled c), (p.solve r g).2) := by
        rw [learnUnsupervised, hcheck hroom, htallies, ← hsolve]
        rfl
      refine ⟨_, _, _, _, hboth, halone, ?_⟩
      cases hresult : (p.solve r g).1.result with
      | error e => exact .inl ⟨e, rfl, rfl⟩
      | ok s =>
          have hlen : s.weights.length = labeled.length := Problem.weights_length_of_solve hresult
          exact modelOfUnlabeled_cases (hlen.symm ▸ hclasses)

/-- Doubles are such an arithmetic, and labels make no difference to what is learned of first
names. -/
theorem learnSemiSupervised_zero_firstNames :
    ¬ (0 : Float) < 0 ∧ checkLambda (0 : Float) = .ok () ∧ StopRule.check {} = .ok () ∧
      checkClasses [FirstNames.same, FirstNames.different].length 1 = .ok () ∧
      (∀ t ∈ [FirstNames.same, FirstNames.different],
        t.sameComparator FirstNames.same = true ∧ t.isEmpty = false) ∧
      ∃ (events : Array (Event Float)) (rest : Generator) (both alone : Except Error (Fit Float)),
        learnSemiSupervised 1 (0 : Float) {} FirstNames.generator FirstNames.same
          [FirstNames.same, FirstNames.different] = (⟨events, both⟩, rest) ∧
        learnUnsupervised 2 {} FirstNames.generator FirstNames.same = (⟨events, alone⟩, rest) ∧
        ((∃ e, both = .error e ∧ alone = .error e) ∨
          ∃ fit m j, both = .ok fit ∧ alone = .ok ⟨m, fit.report⟩ ∧
            fit.model.withMatchClasses [j] = .ok m) := by
  have hzero : ¬ (0 : Float) < 0 := by decide
  have hlabeled : ∀ t ∈ [FirstNames.same, FirstNames.different],
      t.sameComparator FirstNames.same = true ∧ t.isEmpty = false := by decide
  have hclasses : checkClasses [FirstNames.same, FirstNames.different].length 1 = .ok () := rfl
  obtain ⟨events, rest, both, alone, hboth, halone, hresult⟩ :=
    learnSemiSupervised_zero hzero rfl (r := {}) rfl hclasses hlabeled FirstNames.generator
  refine ⟨hzero, rfl, rfl, hclasses, hlabeled, events, rest, both, alone, hboth,
    halone (by decide), ?_⟩
  rcases hresult with herror | ⟨fit, m, priors, j, hfit, hm, -, -, hfirst, -⟩
  · exact .inl herror
  · exact .inr ⟨fit, m, j, hfit, hm, hfirst⟩

end Linkage
