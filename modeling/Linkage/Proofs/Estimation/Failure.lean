import Linkage.Proofs.Estimation.Learner
import Linkage.Proofs.Estimation.Sizes

/-
# When nothing is learned

A learner checks its arguments, makes its runs and makes a model of what they found.  Past the
arguments a run fails at a class without any amount or at a pattern without any likelihood, and
nothing but the sum of a row can keep a model from being made: all sizes are those of the problem.
Exact sums do not.
-/

namespace Linkage

open Extended (number)
open PatternSpace
open Traversal (bind_eq_error_iff bind_of_ok)

/-- What a step can meet: a class without any amount, or a pattern without any likelihood. -/
inductive Degenerate : Error → Prop
  | cls (cls : Nat) : Degenerate (.degenerateClass cls)
  | pattern (index : Nat) : Degenerate (.degeneratePattern index)

/-- The refusal of a row for its sum. -/
def RowSumRefused (e : Error) : Prop :=
  ∃ cls k sum, e = .invalidModel (.rowSum cls k sum)

/-! ## Runs -/

namespace Problem

variable {γ α : Type} [Arithmetic α] [Draws γ α] {p : Problem α} {s : Estimate α} {e : Error}

theorem sharesOf_eq_error {entry : Tally.Entry} (h : sharesOf s entry = .error e) :
    Degenerate e := by
  rw [sharesOf] at h
  split at h
  case isTrue => cases h
  case isFalse => exact Except.error.inj h ▸ .pattern entry.index

theorem expect_eq_error (h : p.expect s = .error e) : Degenerate e := by
  rw [expect] at h
  split at h
  case isTrue =>
    rcases bind_eq_error_iff.mp h with h | ⟨shares, -, h⟩
    · obtain ⟨-, entry, -, -, -, hentry⟩ := Traversal.mapM_eq_error_iff.mp h
      exact sharesOf_eq_error hentry
    · cases h
  case isFalse => cases h

theorem checkMass_eq_error {totals : List α} (h : checkMass totals = .error e) : Degenerate e := by
  obtain ⟨⟨total, cls⟩, -, hcls⟩ := Traversal.exists_of_forM_eq_error h
  change (if 0 < total then Except.ok () else .error (.degenerateClass cls)) = .error e at hcls
  split at hcls
  case isTrue => cases hcls
  case isFalse => exact Except.error.inj hcls ▸ .cls cls

theorem maximize_eq_error (h : p.maximize s = .error e) : Degenerate e := by
  rw [maximize_eq, Traversal.map_eq_error_iff] at h
  exact checkMass_eq_error h

theorem step_eq_error (h : p.step s = .error e) : Degenerate e := by
  rcases bind_eq_error_iff.mp h with h | ⟨u, -, h⟩
  · exact expect_eq_error h
  · exact maximize_eq_error h

theorem continueRun_eq_error {tolerance : α} {left done : Nat} {old : α}
    {events : Array (Event α)}
    (h : (p.continueRun tolerance left done s old events).result = .error e) : Degenerate e := by
  induction left generalizing done s old events with
  | zero => cases h
  | succ left ih =>
      cases hstep : p.step s with
      | error e' =>
          rw [continueRun_error hstep] at h
          exact Except.error.inj h ▸ step_eq_error hstep
      | ok t =>
          rw [continueRun_succ hstep] at h
          split at h
          case isTrue => cases h
          case isFalse => exact ih h

theorem runs_eq_error {r : StopRule} {left : Nat} {best : Option (Solution α)} {g : γ}
    {events : Array (Event α)} (hsome : 0 < left ∨ best.isSome)
    (h : (p.runs r left best g events).1.result = .error e) : Degenerate e := by
  induction left generalizing best g events with
  | zero =>
      obtain ⟨b, rfl⟩ := Option.isSome_iff_exists.mp (hsome.resolve_left (Nat.lt_irrefl 0))
      cases h
  | succ left ih =>
      cases hrun : (p.runFrom r (p.start g).1 events).result with
      | error e' =>
          rw [runs_succ_error hrun] at h
          exact Except.error.inj h ▸ continueRun_eq_error hrun
      | ok new =>
          rw [runs_succ_ok hrun] at h
          exact ih (.inr rfl) h

theorem solve_eq_error {r : StopRule} {g : γ} (hr : r.check = .ok ())
    (h : (p.solve r g).1.result = .error e) : Degenerate e :=
  runs_eq_error (.inl (StopRule.check_eq_ok_iff.mp hr).2.2) h

end Problem

/-! ## Models -/

section Models

variable {γ α : Type} [Arithmetic α] {c : RecordComparator} {weights : Weights α}
  {matchCount : Nat} {e : Error}

/-- Rows of the right sizes are refused only for their sums. -/
theorem Weights.check_eq_error {levels : List Nat} (hrows : ∀ rows ∈ weights, RowsFit levels rows)
    (h : weights.check levels = .error e) : RowSumRefused e := by
  obtain ⟨⟨rows, cls⟩, hmem, hclass⟩ := Traversal.exists_of_forM_eq_error h
  have hfit := hrows rows (List.fst_mem_of_mem_zipIdx hmem)
  change checkClass levels cls rows = .error e at hclass
  rw [checkClass, if_neg (not_not.mpr (List.Forall₂.length_eq hfit))] at hclass
  obtain ⟨⟨⟨row, n⟩, k⟩, hrow, hcheck⟩ := Traversal.exists_of_forM_eq_error hclass
  have hlen : row.length = n :=
    (List.forall₂_iff_zip.mp hfit).2 (List.fst_mem_of_mem_zipIdx hrow)
  change checkRow cls k n row = .error e at hcheck
  rw [checkRow, if_neg (not_not.mpr hlen)] at hcheck
  simp only at hcheck
  split at hcheck
  case isTrue => exact ⟨cls, k, _, (Except.error.inj hcheck).symm⟩
  case isFalse => cases hcheck

theorem Model.make_eq_error (hclasses : checkClasses weights.length matchCount = .ok ())
    (hrows : ∀ rows ∈ weights, RowsFit c.levels rows) (h : make c weights matchCount = .error e) :
    RowSumRefused e := by
  rw [make, hclasses] at h
  rcases bind_eq_error_iff.mp h with h | ⟨-, -, h⟩
  · cases h
  · rcases bind_eq_error_iff.mp h with h | ⟨-, -, h⟩
    · exact Weights.check_eq_error hrows h
    · cases h

variable {p : Problem α} {solution : Solution α}

theorem Solution.Sized.withPriors {m : Model α} (hs : solution.Sized p)
    (hmake : Model.make c solution.weights matchCount = .ok m) : m.classCount = p.classes ∧
      m.withPriors solution.priors = .ok { m with priors := some solution.priors } := by
  obtain ⟨-, -, rfl⟩ := Model.make_eq_ok_iff.mp hmake
  exact ⟨hs.weights, Model.withPriors_eq (hs.priors.trans hs.weights.symm)⟩

theorem modelOfLabeled_eq_error (hclasses : checkClasses p.classes matchCount = .ok ())
    (hlevels : p.levels = c.levels) (hs : solution.Sized p)
    (h : modelOfLabeled c matchCount solution = .error e) : RowSumRefused e := by
  rcases bind_eq_error_iff.mp h with h | ⟨m, hmake, h⟩
  · exact Model.make_eq_error (hs.weights ▸ hclasses) (hlevels ▸ hs.rows) h
  · rw [(hs.withPriors hmake).2] at h
    cases h

theorem modelOfUnlabeled_eq_error (hclasses : checkClasses p.classes 1 = .ok ())
    (hlevels : p.levels = c.levels) (hs : solution.Sized p)
    (h : modelOfUnlabeled c solution = .error e) : RowSumRefused e := by
  rcases bind_eq_error_iff.mp h with h | ⟨m, hmake, h⟩
  · exact Model.make_eq_error (hs.weights ▸ hclasses) (hlevels ▸ hs.rows) h
  · obtain ⟨hcount, hpriors⟩ := hs.withPriors hmake
    have hne : solution.priors ≠ [] := by
      refine List.ne_nil_of_length_pos ?_
      rw [hs.priors]
      exact Model.classes_pos_of_checkClasses hclasses
    have hleast : ∀ j ∈ [leastIndex solution.priors], j < m.classCount := by
      intro j hj
      rw [List.mem_singleton.mp hj, hcount, ← hs.priors]
      exact leastIndex_lt hne
    have hfirst : Model.withMatchClasses { m with priors := some solution.priors }
        [leastIndex solution.priors] = .ok _ :=
      Model.withMatchClasses_eq (hcount ▸ hclasses) hleast (List.nodup_singleton _)
    rw [hpriors] at h
    change Model.withMatchClasses _ _ >>= _ = _ at h
    rw [hfirst] at h
    cases h

end Models

/-! ## Arguments -/

theorem checkTallies_eq {ts : List Tally} {c : RecordComparator} (hne : ts ≠ [])
    (hc : ∀ t ∈ ts, t.comparator = c) : checkTallies ts =
      if ts.any Tally.isEmpty then .error (.invalidModel .emptyTally) else .ok c := by
  obtain ⟨first, rest, rfl⟩ := List.exists_cons_of_ne_nil hne
  have hfirst := hc first List.mem_cons_self
  have hchecks : ∀ ts : List Tally, (∀ t ∈ ts, t.comparator = c) → (ts.forM fun t =>
      if !t.sameComparator first then Except.error Error.comparatorMismatch
      else if t.isEmpty then .error (.invalidModel .emptyTally)
      else .ok ()) = if ts.any Tally.isEmpty then .error (.invalidModel .emptyTally) else .ok () := by
    intro ts hts
    induction ts with
    | nil => rfl
    | cons t ts ih =>
        have hsame : t.sameComparator first = true := by
          simp [Tally.sameComparator, hts t List.mem_cons_self, hfirst]
        have hrest := ih fun u hu => hts u (List.mem_cons_of_mem t hu)
        rw [List.forM, hsame, List.any_cons]
        cases t.isEmpty with
        | true => rfl
        | false => exact hrest
  rw [checkTallies, hchecks _ hc, hfirst]
  cases (first :: rest).any Tally.isEmpty <;> rfl

theorem checkUnsupervised_eq {classes : Nat} {r : StopRule} (hclasses : 2 ≤ classes)
    (hr : r.check = .ok ()) (t : Tally) : checkUnsupervised classes r t =
      if t.isEmpty then .error (.invalidModel .emptyTally)
      else (Simplex.checkLength classes).map fun _ => t.comparator := by
  have hcheck : checkClasses classes 1 = .ok () :=
    Model.checkClasses_eq_ok_iff.mpr ⟨hclasses, Nat.one_pos, hclasses⟩
  have hone : ∀ u ∈ [t], u.comparator = t.comparator := by simp
  have htallies := checkTallies_eq (List.cons_ne_nil t []) hone
  rw [List.any_cons, List.any_nil, Bool.or_false] at htallies
  rw [checkUnsupervised, hcheck, hr, htallies]
  cases t.isEmpty with
  | true => rfl
  | false => cases Simplex.checkLength classes <;> rfl

/-! ## Learners -/

section Learners

variable {γ α : Type} [Arithmetic α] [Draws γ α] {c : RecordComparator} {matchCount : Nat}
  {labeled : List Tally} {r : StopRule} {g : γ} {e : Error}

omit [Arithmetic α] in
theorem Problem.fitting_of_tallies {classes : Nat} {unlabeled : Tally} {lambda : α}
    (h : ∀ t ∈ unlabeled :: labeled, t.comparator = c ∧ t.Sound)
    (hclasses : labeled.length ≤ classes) :
    (⟨c.levels, classes, unlabeled.entries, labeled.map Tally.entries, lambda⟩ :
      Problem α).Fitting where
  labels := by rwa [List.length_map]
  unlabeled := by
    intro entry hentry
    obtain ⟨rfl, hsound⟩ := h unlabeled List.mem_cons_self
    exact (hsound entry hentry).1
  labeled := by
    intro entries hentries entry hentry
    obtain ⟨t, ht, rfl⟩ := List.mem_map.mp hentries
    obtain ⟨rfl, hsound⟩ := h t (List.mem_cons_of_mem _ ht)
    exact (hsound entry hentry).1

theorem learnSupervised_eq_error (hlabeled : ∀ t ∈ labeled, t.Filled c)
    (hclasses : checkClasses labeled.length matchCount = .ok ())
    (h : (learnSupervised matchCount labeled : Except Error (Model α)) = .error e) :
    RowSumRefused e := by
  rw [learnSupervised, hclasses,
    checkTallies_eq_ok (ne_nil_of_checkClasses hclasses) hlabeled] at h
  refine Model.make_eq_error ?_ ?_ h
  · rwa [List.length_map]
  · intro rows hrows
    obtain ⟨t, ht, rfl⟩ := List.mem_map.mp hrows
    exact Tally.rowsFit_shares (hlabeled t ht)

/-- Past the checks, unlabeled pairs are the patterns of a problem to solve. -/
theorem result_learnUnsupervised {classes : Nat} {t : Tally}
    (hcheck : checkUnsupervised classes r t = .ok c) :
    (learnUnsupervised classes r g t : Observed (Event α) (Fit α) × γ).1.result =
      (Problem.solve ⟨c.levels, classes, t.entries, [], 0⟩ r g).1.result >>=
        modelOfUnlabeled c := by
  rw [learnUnsupervised, hcheck]
  rfl

/-- Past the checks, labeled and unlabeled pairs are the patterns of a problem to solve. -/
theorem result_learnSemiSupervised {lambda : α} {unlabeled : Tally}
    (htallies : ∀ t ∈ unlabeled :: labeled, t.Filled c) (hlambda : checkLambda lambda = .ok ())
    (hr : r.check = .ok ()) (hclasses : checkClasses labeled.length matchCount = .ok ()) :
    (learnSemiSupervised matchCount lambda r g unlabeled labeled).1.result =
      (Problem.solve ⟨c.levels, labeled.length, unlabeled.entries, labeled.map Tally.entries,
        lambda⟩ r g).1.result >>= modelOfLabeled c matchCount := by
  rw [learnSemiSupervised, hlambda, hr, hclasses,
    checkTallies_eq_ok (List.cons_ne_nil _ _) htallies]
  rfl

theorem learnUnsupervised_eq_error {classes : Nat} {t : Tally} (ht : t.Filled c)
    (hcheck : checkUnsupervised classes r t = .ok c)
    (h : (learnUnsupervised classes r g t : Observed (Event α) (Fit α) × γ).1.result = .error e) :
    Degenerate e ∨ RowSumRefused e := by
  obtain ⟨hclasses, hr, -, -⟩ := checkUnsupervised_eq_ok_iff.mp hcheck
  rw [result_learnUnsupervised hcheck] at h
  rcases bind_eq_error_iff.mp h with h | ⟨solution, hsolve, h⟩
  · exact .inl (Problem.solve_eq_error hr h)
  · have hall : ∀ u ∈ [t], u.comparator = c ∧ u.Sound := by
      simpa using ⟨ht.comparator, ht.sound⟩
    have hfitting : (⟨c.levels, classes, t.entries, [], 0⟩ : Problem α).Fitting :=
      Problem.fitting_of_tallies hall (Nat.zero_le classes)
    exact .inr (modelOfUnlabeled_eq_error hclasses rfl (Problem.sized_of_solve hfitting hsolve) h)

theorem learnSemiSupervised_eq_error {lambda : α} {unlabeled : Tally}
    (htallies : ∀ t ∈ unlabeled :: labeled, t.Filled c) (hlambda : checkLambda lambda = .ok ())
    (hr : r.check = .ok ()) (hclasses : checkClasses labeled.length matchCount = .ok ())
    (h : (learnSemiSupervised matchCount lambda r g unlabeled labeled).1.result = .error e) :
    Degenerate e ∨ RowSumRefused e := by
  rw [result_learnSemiSupervised htallies hlambda hr hclasses] at h
  rcases bind_eq_error_iff.mp h with h | ⟨solution, hsolve, h⟩
  · exact .inl (Problem.solve_eq_error hr h)
  · have hall : ∀ t ∈ unlabeled :: labeled, t.comparator = c ∧ t.Sound :=
      fun t ht => ⟨(htallies t ht).comparator, (htallies t ht).sound⟩
    have hsized := Problem.sized_of_solve (Problem.fitting_of_tallies hall le_rfl) hsolve
    exact .inr (modelOfLabeled_eq_error hclasses rfl hsized h)

end Learners

/-! ## Exact sums -/

section Exact

variable {γ : Type} [Draws γ Extended] {c : RecordComparator} {matchCount : Nat}
  {labeled : List Tally} {r : StopRule} {g : γ} {e : Error}

theorem learnUnsupervised_degenerate (hdraws : Simplex.UnitDraws γ) {classes : Nat} {t : Tally}
    (ht : t.Filled c) (hcheck : checkUnsupervised classes r t = .ok c)
    (h : (learnUnsupervised classes r g t : Observed (Event Extended) _ × γ).1.result = .error e) :
    Degenerate e := by
  have hr := (checkUnsupervised_eq_ok_iff.mp hcheck).2.1
  have hresult := h
  rw [result_learnUnsupervised hcheck] at hresult
  rcases bind_eq_error_iff.mp hresult with herror | ⟨solution, hsolve, -⟩
  · exact Problem.solve_eq_error hr herror
  · obtain ⟨m, hm, -⟩ := learnUnsupervised_eq_ok hdraws ht.sound hcheck hsolve
    rw [hm] at h
    cases h

theorem learnSemiSupervised_degenerate (hdraws : Simplex.UnitDraws γ) {lambda : Extended}
    {unlabeled : Tally} (htallies : ∀ t ∈ unlabeled :: labeled, t.Filled c)
    (hlambda : checkLambda lambda = .ok ()) (hr : r.check = .ok ())
    (hclasses : checkClasses labeled.length matchCount = .ok ())
    (h : (learnSemiSupervised matchCount lambda r g unlabeled labeled).1.result = .error e) :
    Degenerate e := by
  obtain ⟨x, rfl, hx⟩ := checkLambda_eq_ok_iff.mp hlambda
  have hresult := h
  rw [result_learnSemiSupervised htallies hlambda hr hclasses] at hresult
  rcases bind_eq_error_iff.mp hresult with herror | ⟨solution, hsolve, -⟩
  · exact Problem.solve_eq_error hr herror
  · have hsolution := Problem.distributed_of_solve hdraws
      (Problem.sound_of_filled htallies le_rfl hx) (Model.classes_pos_of_checkClasses hclasses) hr
      hsolve
    rw [(learnSemiSupervised_eq_ok htallies hx hr hclasses hsolve hsolution).1] at h
    cases h

end Exact

end Linkage
