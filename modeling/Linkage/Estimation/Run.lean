import Linkage.Estimation.Problem
import Linkage.Observed

/-
# Runs of an estimation

A run repeats the step from a random estimate until the log-likelihood improves, by less than the
tolerance, or the limit on the steps is reached.  Of several runs the first with the best final
log-likelihood is kept.

A run reports every step and, once it stops, how it ended.  The log shows a selection of the reports:
every tenth step up to 100, every hundredth up to 1000 and every thousandth after that.
-/

namespace Linkage

/-! ## What a run reports -/

/-- How a run ended.  It has not converged if it was stopped by the limit on its steps. -/
structure Report (α : Type) where
  iterations : Nat
  logLikelihood : α
  converged : Bool
  deriving Repr

/-- What a run reports: a step with its log-likelihood and the change of it, or the end. -/
inductive Event (α : Type) where
  | iteration (number : Nat) (logLikelihood delta : α)
  | finish (report : Report α)
  deriving Repr

namespace Event

def isLogged (number : Nat) : Bool :=
  (number < 101 && number % 10 == 0) || (number < 1001 && number % 100 == 0) ||
    number % 1000 == 0

def logLine? : Event Float → Option String
  | iteration number logLikelihood delta =>
    if isLogged number then
      some ("EM iteration " ++ Text.alignRight 6 (toString number) ++ ": log-likelihood " ++
        Decimal.fixed 7 logLikelihood ++ " (delta " ++ Decimal.fixed 7 delta ++ ")")
    else none
  | finish report =>
    if report.converged then
      some ("EM converged after " ++ toString report.iterations ++
        " iterations: log-likelihood " ++ Decimal.fixed 7 report.logLikelihood)
    else
      some ("EM stopped at the iteration cap (" ++ toString report.iterations ++
        "): log-likelihood " ++ Decimal.fixed 7 report.logLikelihood)

end Event

/-! ## Runs -/

/-- When a run stops, and how many runs there are. -/
structure StopRule where
  maxIterations : Nat := 50000
  tolerance : Float := 1e-7
  restarts : Nat := 1
  deriving BEq, Repr

/-- Refuses a rule without steps or runs, or with a tolerance that is not a positive number. -/
def StopRule.check (r : StopRule) : Except Error Unit :=
  if r.maxIterations = 0 then .error (.invalidModel .noIterations)
  else if !(r.tolerance.isFinite && 0 < r.tolerance) then
    .error (.invalidModel (.tolerance (Decimal.plain r.tolerance)))
  else if r.restarts = 0 then .error (.invalidModel .noRestarts)
  else .ok ()

/-- The priors and weights that a run found, with its report. -/
structure Solution (α : Type) where
  priors : List α
  weights : Weights α
  report : Report α

namespace Problem

variable {γ α : Type} [Arithmetic α] [Draws γ α]

@[specialize] def finish (s : Estimate α) (report : Report α) (events : Array (Event α)) :
    Observed (Event α) (Solution α) :=
  ⟨events.push (.finish report), .ok ⟨s.priors, s.weights, report⟩⟩

/-- Continues a run by at most `left` steps.  `done` steps have been made, and the last one
reached the log-likelihood `old`. -/
@[specialize] def continueRun (p : Problem α) (tolerance : α) : (left done : Nat) → Estimate α →
    (old : α) → Array (Event α) → Observed (Event α) (Solution α)
  | 0, done, s, old, events => finish s ⟨done, old, false⟩ events
  | left + 1, done, s, old, events =>
    match p.step s with
    | .error e => ⟨events, .error e⟩
    | .ok s =>
      let new := p.logLikelihood s
      let delta := new - old
      let events := events.push (.iteration (done + 1) new delta)
      if 0 ≤ delta ∧ delta < tolerance then finish s ⟨done + 1, new, true⟩ events
      else continueRun p tolerance left (done + 1) s new events

@[specialize] def runFrom (p : Problem α) (r : StopRule) (s : Estimate α)
    (events : Array (Event α)) : Observed (Event α) (Solution α) :=
  p.continueRun (Arithmetic.ofFloat r.tolerance) r.maxIterations 0 s (p.logLikelihood s) events

/-- The better of two solutions; the earlier one if neither is. -/
@[specialize] def better (best : Option (Solution α)) (new : Solution α) : Solution α :=
  match best with
  | none => new
  | some b => if new.report.logLikelihood ≤ b.report.logLikelihood then b else new

/-- `left` runs, of which the best is kept.  The first failure ends them. -/
@[specialize] def runs (p : Problem α) (r : StopRule) : (left : Nat) → Option (Solution α) → γ →
    Array (Event α) → Observed (Event α) (Solution α) × γ
  | 0, some best, g, events => (⟨events, .ok best⟩, g)
  | 0, none, g, events => (⟨events, .error (.invalidModel .noRestarts)⟩, g)
  | left + 1, best, g, events =>
    let (s, g) := p.start g
    match p.runFrom r s events with
    | ⟨events, .error e⟩ => (⟨events, .error e⟩, g)
    | ⟨events, .ok new⟩ => runs p r left (some (better best new)) g events

/-- The best solution of all runs. -/
@[specialize] def solve (p : Problem α) (r : StopRule) (g : γ) :
    Observed (Event α) (Solution α) × γ :=
  p.runs r r.restarts none g #[]

end Problem

end Linkage
