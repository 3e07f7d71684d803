import Linkage.Mixture.Model
import Linkage.Random.Simplex

/-
# One step of expectation maximization

A problem is a set of pattern counts to be explained by a mixture.  Labeled counts belong to a
known class each; of the unlabeled counts, a step first estimates the share of every class
(expectation) and then takes the shares for counts and estimates the weights from them
(maximization).  `lambda` blends the two kinds: 0 leaves the labeled counts out, 1 the unlabeled
ones.
-/

namespace Linkage

/-- Pattern counts to be explained by a number of classes.  `labeled` has the entries of class
`j` at position `j`. -/
structure Problem (α : Type) where
  levels : List Nat
  classes : Nat
  unlabeled : List Tally.Entry
  labeled : List (List Tally.Entry)
  lambda : α

/-- An estimate: the priors of the classes, their weights, and the shares of the classes in every
unlabeled entry. -/
structure Estimate (α : Type) where
  priors : List α
  weights : Weights α
  shares : List (List α)

/-- An amount of pairs with one pattern. -/
structure Mass (α : Type) where
  pattern : Pattern
  amount : α

namespace Mass

variable {α : Type} [Arithmetic α]

@[specialize] def total (masses : List (Mass α)) : α :=
  masses.foldl (fun sum m => sum + m.amount) 0

/-- Adds an amount to the cells that its pattern selects, one in each row. -/
@[specialize] def addTo (rows : List (List α)) (m : Mass α) : List (List α) :=
  rows.zipWith (fun row level => row.modify level (· + m.amount)) m.pattern

/-- The amounts by comparator and level. -/
@[specialize] def table (levels : List Nat) (masses : List (Mass α)) : List (List α) :=
  masses.foldl addTo (levels.map fun n => List.replicate n 0)

/-- Rows with every cell divided by a total. -/
@[specialize] def normalize (rows : List (List α)) (total : α) : List (List α) :=
  rows.map fun row => row.map (· / total)

end Mass

namespace Problem

variable {γ α : Type} [Arithmetic α] [Draws γ α]

/-- A random estimate.  Priors are drawn first, then the weights class by class, then shares. -/
@[specialize] def start (p : Problem α) (g : γ) : Estimate α × γ :=
  let (priors, g) := Simplex.partition p.classes g
  let (weights, g) := Simplex.tables p.levels p.classes g
  let (shares, g) := Simplex.partitions (p.unlabeled.map fun _ => p.classes) g
  (⟨priors, weights, shares⟩, g)

@[specialize] def likelihood (prior : α) (rows : List (List α)) (p : Pattern) : α :=
  (rows.zip p).foldl (fun product (row, level) => product * row.getD level 0) prior

/-- The logarithm of the likelihood of a pattern in a class, as a sum of logarithms. -/
@[specialize] def logLikelihoodIn (prior : α) (rows : List (List α)) (p : Pattern) : α :=
  (rows.zip p).foldl (fun sum (row, level) => sum + Arithmetic.log (row.getD level 0))
    (Arithmetic.log prior)

/-- The shares of the classes in an entry: their likelihoods, scaled to sum 1. -/
@[specialize] def sharesOf (s : Estimate α) (e : Tally.Entry) : Except Error (List α) :=
  let likelihoods := s.priors.zipWith (fun prior rows => likelihood prior rows e.pattern) s.weights
  let total := likelihoods.foldl (· + ·) 0
  if 0 < total then .ok (likelihoods.map (· / total))
  else .error (.degeneratePattern e.index)

/-- Estimates the shares.  Without unlabeled counts nothing depends on them. -/
@[specialize] def expect (p : Problem α) (s : Estimate α) : Except Error (Estimate α) :=
  if p.lambda < 1 then do
    return { s with shares := ← p.unlabeled.mapM (sharesOf s) }
  else .ok s

@[specialize] def labeledMass (p : Problem α) (cls : Nat) : List (Mass α) :=
  if 0 < p.lambda then
    (p.labeled.getD cls []).map fun e => ⟨e.pattern, p.lambda * (e.count : α)⟩
  else []

@[specialize] def unlabeledMass (p : Problem α) (s : Estimate α) (cls : Nat) : List (Mass α) :=
  if p.lambda < 1 then
    p.unlabeled.zipWith
      (fun e shares => ⟨e.pattern, (1 - p.lambda) * shares.getD cls 0 * (e.count : α)⟩) s.shares
  else []

@[specialize] def mass (p : Problem α) (s : Estimate α) (cls : Nat) : List (Mass α) :=
  p.labeledMass cls ++ p.unlabeledMass s cls

/-- Refuses a class without any amount. -/
@[specialize] def checkMass (totals : List α) : Except Error Unit :=
  totals.zipIdx.forM fun (total, cls) =>
    if 0 < total then .ok () else .error (.degenerateClass cls)

/-- Estimates priors and weights from the amounts of the classes. -/
@[specialize] def maximize (p : Problem α) (s : Estimate α) : Except Error (Estimate α) := do
  let masses := (List.range p.classes).map (p.mass s)
  let totals := masses.map Mass.total
  checkMass totals
  let all := Arithmetic.sum totals
  return {
    priors := totals.map (· / all)
    weights := masses.zipWith (fun ms total => Mass.normalize (Mass.table p.levels ms) total) totals
    shares := s.shares }

@[specialize] def step (p : Problem α) (s : Estimate α) : Except Error (Estimate α) := do
  p.maximize (← p.expect s)

@[specialize] def labeledLogLikelihood (p : Problem α) (s : Estimate α) : α :=
  let classes := p.labeled.zip (s.priors.zip s.weights)
  classes.foldl
    (fun sum (entries, prior, rows) =>
      entries.foldl
        (fun sum e => sum + (e.count : α) * logLikelihoodIn prior rows e.pattern) sum)
    0

/-- The expected log-likelihood of an entry.  A class without share adds nothing, whatever its
likelihood. -/
@[specialize] def expectedLogLikelihood (s : Estimate α) (p : Pattern) (shares : List α) : α :=
  (shares.zip (s.priors.zip s.weights)).foldl
    (fun sum (share, prior, rows) =>
      if share == 0 then sum else sum + share * logLikelihoodIn prior rows p)
    0

/-- The expected log-likelihood of the unlabeled counts. -/
@[specialize] def unlabeledLogLikelihood (p : Problem α) (s : Estimate α) : α :=
  (p.unlabeled.zip s.shares).foldl
    (fun sum (e, shares) => sum + (e.count : α) * expectedLogLikelihood s e.pattern shares) 0

/-- The blended log-likelihood of an estimate. -/
@[specialize] def logLikelihood (p : Problem α) (s : Estimate α) : α :=
  let labeled := if 0 < p.lambda then p.labeledLogLikelihood s else 0
  let unlabeled := if p.lambda < 1 then p.unlabeledLogLikelihood s else 0
  p.lambda * labeled + (1 - p.lambda) * unlabeled

end Problem

end Linkage
