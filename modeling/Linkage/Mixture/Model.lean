import Linkage.Arithmetic
import Linkage.Join.Tally

/-
# Mixture models

A mixture model has several classes of pairs, of which the first are the match classes.  For every
class it holds the distribution of the agreement levels of every comparator.  A pair is scored by
the log-likelihood of its pattern under the match classes, less that under the others.
-/

namespace Linkage

/-- A weight for every class, comparator and level. -/
abbrev Weights (α : Type) := List (List (List α))

/-- A mixture model over the patterns of a comparator, with the priors of its classes if they are
known. -/
structure Model (α : Type) where
  comparator : RecordComparator
  matchCount : Nat
  weights : Weights α
  logWeights : Weights α
  priors : Option (List α)

/-- Refuses less than two classes, and match classes that are none or all. -/
def checkClasses (classes matchClasses : Nat) : Except Error Unit :=
  if classes < 2 then .error (.invalidModel (.tooFewClasses classes))
  else if matchClasses = 0 || classes ≤ matchClasses then
    .error (.invalidModel (.matchClassCount classes matchClasses))
  else .ok ()

namespace Weights

variable {α : Type} [Arithmetic α]

/-- Refuses a row of weights without one weight per level, or whose sum is not near 1. -/
def checkRow (cls comparator levels : Nat) (row : List α) : Except Error Unit :=
  if row.length ≠ levels then
    .error (.invalidModel (.levelCount cls comparator row.length levels))
  else
    let sum := Arithmetic.sum row
    if 1e-6 < Arithmetic.abs (sum - 1) then
      .error (.invalidModel (.rowSum cls comparator (Arithmetic.text sum)))
    else .ok ()

/-- Refuses the weights of a class without one row per comparator, or with a bad row. -/
def checkClass (levels : List Nat) (cls : Nat) (rows : List (List α)) : Except Error Unit :=
  if rows.length ≠ levels.length then
    .error (.invalidModel (.rowCount cls rows.length levels.length))
  else
    (rows.zip levels).zipIdx.forM fun ((row, n), k) => checkRow cls k n row

/-- Refuses weights that do not fit the levels of the comparators. -/
def check (levels : List Nat) (weights : Weights α) : Except Error Unit :=
  weights.zipIdx.forM fun (rows, cls) => checkClass levels cls rows

/-- Whether no class gives a level of a comparator any weight. -/
def isSilent (weights : Weights α) (k level : Nat) : Bool :=
  weights.all fun rows => ((rows[k]?).bind (·[level]?)).all (· == 0)

/-- The logarithms of all weights.  A level that no class produces carries no evidence: it has
logarithm 0 in every class. -/
def logs (weights : Weights α) : Weights α :=
  weights.map fun rows => rows.zipIdx.map fun (row, k) => row.zipIdx.map fun (w, level) =>
    if weights.isSilent k level then 0 else Arithmetic.log w

end Weights

/-- The entries of some rows that a pattern selects, row by row.  Every level must be in range;
rows beyond the pattern are not looked at. -/
def cells {α : Type} : List (List α) → Pattern → Except Error (List α)
  | _, [] => .ok []
  | [], _ :: _ => .error (.misuse .outOfBounds)
  | row :: rows, level :: levels =>
    match row[level]? with
    | none => .error (.misuse .outOfBounds)
    | some x => do return x :: (← cells rows levels)

namespace Model

variable {α : Type} [Arithmetic α]

/-- A model from its weights, without priors. -/
def make (c : RecordComparator) (weights : Weights α) (matchCount : Nat) :
    Except Error (Model α) := do
  checkClasses weights.length matchCount
  weights.check c.levels
  return ⟨c, matchCount, weights, weights.logs, none⟩

def classCount (m : Model α) : Nat :=
  m.weights.length

def isMatch (m : Model α) (cls : Nat) : Bool :=
  decide (cls < m.matchCount)

def withPriors (m : Model α) (priors : List α) : Except Error (Model α) :=
  if priors.length ≠ m.classCount then
    .error (.invalidModel (.priorCount m.classCount priors.length))
  else .ok { m with priors := some priors }

def pick {β : Type} (order : List Nat) (xs : List β) : List β :=
  order.filterMap (xs[·]?)

/-- Some classes first, then the others in their order. -/
def classOrder (classes : Nat) (first : List Nat) : List Nat :=
  first ++ (List.range classes).filter fun j => !first.contains j

def isDistinct : List Nat → Bool
  | [] => true
  | x :: xs => !xs.contains x && isDistinct xs

/-- The model with its classes reordered, so that the given ones come first and are the match
classes. -/
def withMatchClasses (m : Model α) (matchClasses : List Nat) : Except Error (Model α) := do
  checkClasses m.classCount matchClasses.length
  if matchClasses.all (· < m.classCount) && isDistinct matchClasses then
    let order := classOrder m.classCount matchClasses
    return { m with
      matchCount := matchClasses.length
      weights := pick order m.weights
      logWeights := pick order m.logWeights
      priors := m.priors.map (pick order) }
  else throw (.invalidModel (.matchClassList matchClasses m.classCount))

def weight (m : Model α) (cls k level : Nat) : Except Error α :=
  match ((m.weights[cls]?).bind (·[k]?)).bind (·[level]?) with
  | some w => .ok w
  | none => .error (.misuse .outOfBounds)

/-- The log-likelihood of a pattern in a class, counted against a match if the class is not a
match class. -/
def classScore (m : Model α) (p : Pattern) (rows : List (List α)) (cls : Nat) : Except Error α := do
  let sum := Arithmetic.sum (← cells rows p)
  return if m.isMatch cls then sum else -sum

/-- The score of a pattern.  A pattern that is too short is scored by the comparators it has. -/
def scorePattern (m : Model α) (p : Pattern) : Except Error α := do
  return Arithmetic.sum (← m.logWeights.zipIdx.mapM fun (rows, cls) => m.classScore p rows cls)

def scoreIndex (m : Model α) (index : Nat) : Except Error α := do
  m.scorePattern (← m.comparator.patternAt index)

def score (m : Model α) (a b : Record) : Except Error α := do
  m.scorePattern (← m.comparator.compare a b)

/-- The joint weight of a pattern and each class. -/
def joint (weights : Weights α) (priors : List α) (p : Pattern) : Except Error (List α) :=
  (priors.zip weights).mapM fun (prior, rows) => do
    return (← cells rows p).foldl (· * ·) prior

/-- Distributes the count of an entry over the classes.  A pattern without weight in any class is
passed over. -/
def distribute (m : Model α) (priors : List α) (counts : List α) (e : Tally.Entry) :
    Except Error (List α) := do
  let weights ← joint m.weights priors e.pattern
  let total := Arithmetic.sum weights
  if 0 < total then
    return counts.zipWith (fun n w => n + (e.count : α) * w / total) weights
  else return counts

/-- How many pairs of a tally are expected in each class, if the model has priors. -/
def classCounts (m : Model α) (t : Tally) : Except Error (Option (List α)) :=
  match m.priors with
  | none => .ok none
  | some priors => do
    return some (← t.entries.foldlM (m.distribute priors) (List.replicate m.classCount 0))

end Model

namespace Model

def heading (m : Model Float) (cls : Nat) : String :=
  let kind := if m.isMatch cls then "match" else "non-match"
  let prior :=
    match (m.priors.getD [])[cls]? with
    | some p => ", prior " ++ Decimal.fixed 6 p
    | none => ""
  "Class " ++ toString cls ++ " (" ++ kind ++ ")" ++ prior ++ "\n"

def rowLine (b : Binding) (row : List Float) : String :=
  "  " ++ Text.alignLeft 16 b.label ++ " ".intercalate (row.map (Decimal.fixed 6)) ++ "\n"

def display (m : Model Float) : String :=
  String.join <| m.weights.zipIdx.map fun (rows, cls) =>
    m.heading cls ++ String.join (m.comparator.bindings.zipWith rowLine rows)

end Model

end Linkage
