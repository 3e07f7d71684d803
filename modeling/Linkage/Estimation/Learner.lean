import Linkage.Estimation.Run

/-
# Learning a model

A model is learned from counts of labeled pairs alone, of unlabeled pairs alone, or of both.
-/

namespace Linkage

/-- A model that was found by runs, with the report of the best one. -/
structure Fit (α : Type) where
  model : Model α
  report : Report α

/-- The common comparator of some tallies, none of which may be empty. -/
def checkTallies : List Tally → Except Error RecordComparator
  | [] => .error (.invalidModel .noTally)
  | first :: rest => do
    (first :: rest).forM fun t =>
      if !t.sameComparator first then .error .comparatorMismatch
      else if t.isEmpty then .error (.invalidModel .emptyTally)
      else .ok ()
    return first.comparator

variable {γ α : Type} [Arithmetic α] [Draws γ α]

/-- The weights of a class of labeled pairs: the share of its pairs at every level. -/
@[specialize] def Tally.shares (t : Tally) : List (List α) :=
  let masses : List (Mass α) := t.entries.map fun e => ⟨e.pattern, (e.count : α)⟩
  Mass.normalize (Mass.table t.comparator.levels masses) (t.total : α)

/-- Learns from one tally of labeled pairs per class, match classes first.  The model has no
priors. -/
@[specialize] def learnSupervised (matchCount : Nat) (labeled : List Tally) :
    Except Error (Model α) := do
  checkClasses labeled.length matchCount
  let c ← checkTallies labeled
  Model.make c (labeled.map Tally.shares) matchCount

@[specialize] def leastIndex : List α → Nat
  | [] => 0
  | x :: xs =>
    let i := leastIndex xs
    match xs[i]? with
    | some y => if Arithmetic.order y x = .lt then i + 1 else 0
    | none => 0

/-- The model of a solution whose match class is the class with the least prior. -/
@[specialize] def modelOfUnlabeled (c : RecordComparator) (s : Solution α) :
    Except Error (Fit α) := do
  let m ← Model.make c s.weights 1
  let m ← m.withPriors s.priors
  let m ← m.withMatchClasses [leastIndex s.priors]
  return ⟨m, s.report⟩

/-- Refuses arguments from which nothing can be learned, and a number of classes for which no memory
holds a vector.  Returns the comparator. -/
def checkUnsupervised (classes : Nat) (r : StopRule) (t : Tally) :
    Except Error RecordComparator := do
  checkClasses classes 1
  r.check
  let c ← checkTallies [t]
  Simplex.checkLength classes
  return c

/-- Learns a number of classes from unlabeled pairs.  The class with the least prior becomes the
match class. -/
@[specialize] def learnUnsupervised (classes : Nat) (r : StopRule) (g : γ) (t : Tally) :
    Observed (Event α) (Fit α) × γ :=
  match checkUnsupervised classes r t with
  | .error e => (.refuse e, g)
  | .ok c =>
    let p : Problem α := ⟨c.levels, classes, t.entries, [], 0⟩
    let (solution, g) := p.solve r g
    (solution.andThen (modelOfUnlabeled c), g)

/-- Refuses a blend that is not between 0 and 1. -/
@[specialize] def checkLambda (lambda : α) : Except Error Unit :=
  if 0 ≤ lambda ∧ lambda ≤ 1 then .ok ()
  else .error (.invalidModel (.lambdaRange (Arithmetic.text lambda)))

/-- The model of a solution whose classes are labeled. -/
@[specialize] def modelOfLabeled (c : RecordComparator) (matchCount : Nat) (s : Solution α) :
    Except Error (Fit α) := do
  let m ← Model.make c s.weights matchCount
  let m ← m.withPriors s.priors
  return ⟨m, s.report⟩

/-- Learns from unlabeled pairs and one tally of labeled pairs per class, match classes first. -/
@[specialize] def learnSemiSupervised (matchCount : Nat) (lambda : α) (r : StopRule) (g : γ)
    (unlabeled : Tally) (labeled : List Tally) : Observed (Event α) (Fit α) × γ :=
  match (do
      checkLambda lambda
      r.check
      checkClasses labeled.length matchCount
      checkTallies (unlabeled :: labeled)) with
  | .error e => (.refuse e, g)
  | .ok c =>
    let p : Problem α :=
      ⟨c.levels, labeled.length, unlabeled.entries, labeled.map Tally.entries, lambda⟩
    let (solution, g) := p.solve r g
    (solution.andThen (modelOfLabeled c matchCount), g)

end Linkage
