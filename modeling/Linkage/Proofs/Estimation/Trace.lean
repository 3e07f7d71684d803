import Linkage.Proofs.Estimation.Run

/-
# The trace of a run

A run goes from estimate to estimate and tells of every step it makes: its number, the log-likelihood
it reached, and by how much this differs from the one before.  It is content with a change that is
not negative and below the tolerance.  There are three ways to end.  The run converges at the first
step with whose change it is content, it stops at the limit on its steps if there is none, or it
fails at a step that cannot be made.  Only a failure is not told as the end.

Nothing is assumed of the arithmetic: a change that is undefined or infinite is one like any other.
-/

namespace Linkage

/-- A change of the log-likelihood with which a run is content. -/
def StopRule.Content {α : Type} [Arithmetic α] (r : StopRule) (delta : α) : Prop :=
  0 ≤ delta ∧ delta < Arithmetic.ofFloat r.tolerance

namespace Problem

variable {γ α : Type} [Arithmetic α] {p : Problem α} {r : StopRule} {s : Estimate α} {n : Nat}

/-- The estimate that a number of steps reach.  A step that cannot be made is left out. -/
def after (p : Problem α) (s : Estimate α) : (steps : Nat) → Estimate α
  | 0 => s
  | n + 1 =>
    match p.step (after p s n) with
    | .ok t => t
    | .error _ => after p s n

/-- The change of the log-likelihood with the step after `n` others. -/
def gain (p : Problem α) (s : Estimate α) (n : Nat) : α :=
  p.logLikelihood (p.after s (n + 1)) - p.logLikelihood (p.after s n)

/-- What is told of the first `n` steps. -/
def reports (p : Problem α) (s : Estimate α) (n : Nat) : List (Event α) :=
  (List.range n).map fun i =>
    .iteration (i + 1) (p.logLikelihood (p.after s (i + 1))) (p.gain s i)

/-- The solution after `n` steps. -/
def solutionAt (p : Problem α) (s : Estimate α) (n : Nat) (converged : Bool) : Solution α :=
  ⟨(p.after s n).priors, (p.after s n).weights, ⟨n, p.logLikelihood (p.after s n), converged⟩⟩

theorem after_succ {t : Estimate α} (h : p.step (p.after s n) = .ok t) : p.after s (n + 1) = t := by
  rw [after, h]

theorem reports_succ (p : Problem α) (s : Estimate α) (n : Nat) : p.reports s (n + 1) =
    p.reports s n ++
      [.iteration (n + 1) (p.logLikelihood (p.after s (n + 1))) (p.gain s n)] := by
  rw [reports, List.range_succ, List.map_append]
  rfl

/-- A run that has made some steps, and was content with none of them. -/
structure Going (p : Problem α) (r : StopRule) (s : Estimate α) (n : Nat) : Prop where
  steps : ∀ i < n, p.step (p.after s i) = .ok (p.after s (i + 1))
  restless : ∀ i < n, ¬ r.Content (p.gain s i)

theorem Going.zero (p : Problem α) (r : StopRule) (s : Estimate α) : p.Going r s 0 :=
  ⟨nofun, nofun⟩

theorem Going.succ (h : p.Going r s n) (hstep : p.step (p.after s n) = .ok (p.after s (n + 1)))
    (hrestless : ¬ r.Content (p.gain s n)) : p.Going r s (n + 1) := by
  refine ⟨fun i hi => ?_, fun i hi => ?_⟩
  · rcases Nat.lt_succ_iff_lt_or_eq.mp hi with hi | rfl
    · exact h.steps i hi
    · exact hstep
  · rcases Nat.lt_succ_iff_lt_or_eq.mp hi with hi | rfl
    · exact h.restless i hi
    · exact hrestless

/-- The ways to end, with what has been told by then. -/
inductive Ends (p : Problem α) (r : StopRule) (s : Estimate α) :
    List (Event α) → Except Error (Solution α) → Prop
  | converged {n : Nat} : n < r.maxIterations → p.Going r s n →
      p.step (p.after s n) = .ok (p.after s (n + 1)) → r.Content (p.gain s n) →
      Ends p r s (p.reports s (n + 1) ++ [.finish (p.solutionAt s (n + 1) true).report])
        (.ok (p.solutionAt s (n + 1) true))
  | stopped : p.Going r s r.maxIterations →
      Ends p r s
        (p.reports s r.maxIterations ++ [.finish (p.solutionAt s r.maxIterations false).report])
        (.ok (p.solutionAt s r.maxIterations false))
  | failed {n : Nat} {e : Error} : n < r.maxIterations → p.Going r s n →
      p.step (p.after s n) = .error e → Ends p r s (p.reports s n) (.error e)

theorem Going.ends (h : p.Going r s n) {left : Nat} (hleft : n + left = r.maxIterations) :
    p.Ends r s
      (p.continueRun (Arithmetic.ofFloat r.tolerance) left n (p.after s n)
        (p.logLikelihood (p.after s n)) (p.reports s n).toArray).events.toList
      (p.continueRun (Arithmetic.ofFloat r.tolerance) left n (p.after s n)
        (p.logLikelihood (p.after s n)) (p.reports s n).toArray).result := by
  induction left generalizing n with
  | zero =>
      obtain rfl : n = r.maxIterations := hleft
      simp only [continueRun, finish, List.push_toArray]
      exact .stopped h
  | succ left ih =>
      have hlt : n < r.maxIterations := by omega
      cases hstep : p.step (p.after s n) with
      | error e =>
          rw [continueRun_error hstep]
          exact .failed hlt h hstep
      | ok t =>
          obtain rfl : p.after s (n + 1) = t := after_succ hstep
          have hreports := reports_succ p s n
          rw [gain] at hreports
          rw [continueRun_succ hstep, List.push_toArray, ← hreports]
          split
          case isTrue hcontent =>
            simp only [finish, List.push_toArray]
            exact .converged hlt h hstep hcontent
          case isFalse hcontent =>
            exact ih (h.succ hstep hcontent) (by omega)

/-- Every run from an estimate ends in one of these ways. -/
theorem ends_runFrom (p : Problem α) (r : StopRule) (s : Estimate α) :
    p.Ends r s (p.runFrom r s #[]).events.toList (p.runFrom r s #[]).result :=
  (Going.zero p r s).ends (Nat.zero_add _)

/-- What a run that finds a solution has told: of each of its steps in turn, and of its end. -/
structure Told (p : Problem α) (r : StopRule) (s : Estimate α) (solution : Solution α)
    (events : List (Event α)) : Prop where
  events : events = p.reports s solution.report.iterations ++ [.finish solution.report]
  steps : ∀ i < solution.report.iterations, p.step (p.after s i) = .ok (p.after s (i + 1))
  logLikelihood : solution.report.logLikelihood =
    p.logLikelihood (p.after s solution.report.iterations)
  restless : ∀ i, i + 1 < solution.report.iterations → ¬ r.Content (p.gain s i)
  converged : solution.report.converged = true ↔
    ∃ i, i + 1 = solution.report.iterations ∧ r.Content (p.gain s i)
  limit : solution.report.iterations ≤ r.maxIterations
  stopped : solution.report.converged = false → solution.report.iterations = r.maxIterations

/-- What a run that fails has told: of the steps before the one that cannot be made. -/
structure BrokeOff (p : Problem α) (r : StopRule) (s : Estimate α) (e : Error) (n : Nat)
    (events : List (Event α)) : Prop extends p.Going r s n where
  events : events = p.reports s n
  step : p.step (p.after s n) = .error e
  limit : n < r.maxIterations

theorem Ends.told {events : List (Event α)} {solution : Solution α}
    (h : p.Ends r s events (.ok solution)) : p.Told r s solution events := by
  cases h with
  | @converged n hlt hgoing hstep hcontent =>
      refine ⟨rfl, ?_, rfl, ?_, ?_, hlt, nofun⟩
      · intro i hi
        rcases Nat.lt_succ_iff_lt_or_eq.mp hi with hi | rfl
        · exact hgoing.steps i hi
        · exact hstep
      · intro i hi
        exact hgoing.restless i (Nat.lt_of_succ_lt_succ hi)
      · exact ⟨fun _ => ⟨n, rfl, hcontent⟩, fun _ => rfl⟩
  | stopped hgoing =>
      refine ⟨rfl, hgoing.steps, rfl, ?_, ?_, le_rfl, fun _ => rfl⟩
      · intro i hi
        exact hgoing.restless i (Nat.lt_of_succ_lt hi)
      · refine ⟨nofun, ?_⟩
        rintro ⟨i, hi, hcontent⟩
        exact absurd hcontent (hgoing.restless i (Nat.lt_of_succ_le (Nat.le_of_eq hi)))

theorem Ends.brokeOff {events : List (Event α)} {e : Error} (h : p.Ends r s events (.error e)) :
    ∃ n, p.BrokeOff r s e n events := by
  cases h with
  | @failed n _ hlt hgoing hstep => exact ⟨n, hgoing, rfl, hstep, hlt⟩

section Run

variable [Draws γ α]

/-- One run from a random estimate, and the source of random numbers after it. -/
def run (p : Problem α) (r : StopRule) (g : γ) : Observed (Event α) (Solution α) × γ :=
  (p.runFrom r (p.start g).1 #[], (p.start g).2)

theorem told_of_run {g : γ} {solution : Solution α} (h : (p.run r g).1.result = .ok solution) :
    p.Told r (p.start g).1 solution (p.run r g).1.events.toList := by
  have hends := ends_runFrom p r (p.start g).1
  rw [show (p.runFrom r (p.start g).1 #[]).result = .ok solution from h] at hends
  exact hends.told

theorem brokeOff_of_run {g : γ} {e : Error} (h : (p.run r g).1.result = .error e) :
    ∃ n, p.BrokeOff r (p.start g).1 e n (p.run r g).1.events.toList := by
  have hends := ends_runFrom p r (p.start g).1
  rw [show (p.runFrom r (p.start g).1 #[]).result = .error e from h] at hends
  exact hends.brokeOff

/-- What is told of a run agrees with what it does.  A run with a solution has told of its steps, as
many as its report says and with the log-likelihoods that they reached, and last of its report.  It
was content at most with its last step, it converged if it was, and else it has made as many steps as
it may.  A run that fails has told of the steps before the one that failed, and not of an end. -/
theorem run_tells (p : Problem α) (r : StopRule) (g : γ) :
    (∃ solution, (p.run r g).1.result = .ok solution ∧
      p.Told r (p.start g).1 solution (p.run r g).1.events.toList) ∨
    ∃ e n, (p.run r g).1.result = .error e ∧
      p.BrokeOff r (p.start g).1 e n (p.run r g).1.events.toList := by
  cases hresult : (p.run r g).1.result with
  | ok solution => exact .inl ⟨solution, rfl, told_of_run hresult⟩
  | error e =>
      obtain ⟨n, hbroke⟩ := brokeOff_of_run hresult
      exact .inr ⟨e, n, rfl, hbroke⟩

end Run

end Problem

end Linkage
