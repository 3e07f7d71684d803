import Linkage.Estimation.Learner
import Linkage.Job
import Linkage.Random.Generator
import Linkage.Score.Matching

/-
# Plans

A plan is a job whose parts fit together.  A run of it loads both collections, counts the patterns
of their blocked pairs, trains a model, scores all pairs and tells a sink about the matches.  The
sink is not told anything unless all that comes before succeeds.

A run tells when a collection is loaded, when both are, what its estimation reports, and what model
it works with.  The log has a line for most of these milestones.
-/

namespace Linkage

/-! ## The milestones of a run -/

/-- A collection that was loaded: where it comes from, and how many records it has. -/
structure Batch where
  path : String
  size : Nat

/-- What a run tells about its way. -/
inductive Milestone (α : Type) where
  | batch (loaded : Batch)
  | bothBatches (left right : Batch)
  | estimation (event : Event α)
  | trained (model : Model α)

namespace Milestone

/-- What was estimated on the way, if anything. -/
def event? {α : Type} : Milestone α → Option (Event α)
  | estimation event => some event
  | _ => none

/-- The line of the log for a milestone.  Single collections are for a detailed log only. -/
def logLine? (detailed : Bool) : Milestone Float → Option String
  | batch loaded =>
    if detailed then some ("Loaded " ++ toString loaded.size ++ " records from " ++ loaded.path)
    else none
  | bothBatches left right =>
    some ("Loaded " ++ toString left.size ++ " left records from " ++ left.path ++ " and " ++
      toString right.size ++ " right records from " ++ right.path)
  | estimation event => event.logLine?
  | trained model => some ("Fitted model:\n" ++ model.display)

end Milestone

/-! ## Plans and runs -/

/-- A job with its sources and its comparator. -/
structure Plan where
  job : Job
  left : Source
  right : Source
  comparator : RecordComparator

/-- A model, with the report of its estimation if it was estimated. -/
structure Trained (α : Type) where
  model : Model α
  report : Option (Report α)

/-- What a run finds before it tells a sink about it. -/
structure Findings (α : Type) where
  leftCount : Nat
  rightCount : Nat
  tally : Tally
  trained : Trained α
  scores : ScoreMap α

/-- What a run found, and how many matches it wrote. -/
structure Summary (α : Type) where
  findings : Findings α
  written : Nat

namespace Plan

def bindComparison (currentYear : Int) (left right : Schema) (c : Comparison) :
    Except Error Binding :=
  Binding.make left right c.field c.rightName (c.choice.comparator currentYear)

def make (currentYear : Int) (j : Job) : Except Error Plan := do
  j.check
  let left ← j.left.source 0
  let right ← j.right.source 1
  let bindings ← j.comparisons.mapM (bindComparison currentYear left.schema right.schema)
  let comparator ← RecordComparator.make 0 bindings j.handleBlanks
  return ⟨j, left, right, comparator⟩

/-- The source of random numbers: that of the seed or, without one, that of `entropy`. -/
def generator (p : Plan) (entropy : UInt64) : Generator :=
  Generator.ofSeed ((p.job.seed.map Nat.toUInt64).getD entropy)

def loadBatch {α : Type} (s : Source) (c : Contents) :
    Observed (Milestone α) (List Record × Batch) := do
  let records ← .of ((s.load c).run 0).1
  let loaded : Batch := ⟨s.path, records.length⟩
  .note (.batch loaded)
  return (records, loaded)

/-- Loads both collections, the left one first. -/
def load {α : Type} (p : Plan) (left right : Contents) :
    Observed (Milestone α) (List Record × List Record) := do
  let (l, leftBatch) ← loadBatch p.left left
  let (r, rightBatch) ← loadBatch p.right right
  .note (.bothBatches leftBatch rightBatch)
  return (l, r)

/-- The records of both collections, and the counts of the patterns of their blocked pairs. -/
def counted {α : Type} (p : Plan) (left right : Contents) :
    Observed (Milestone α) (List Record × List Record × Tally) := do
  let (l, r) ← p.load left right
  return (l, r, ← .of (tally p.comparator l r))

variable {σ γ α : Type} [Arithmetic α] [Ord α] [Draws γ α]

@[specialize] def trainedByRuns (x : Observed (Event α) (Fit α)) : Observed (Event α) (Trained α) :=
  x.andThen fun fit => .ok ⟨fit.model, some fit.report⟩

@[specialize] def trainLabeled (p : Plan) (left right : List Record) :
    Except Error (Trained α) := do
  let (matched, unmatched) ← tallyTruth p.comparator left right
  return ⟨← learnSupervised 1 [matched, unmatched], none⟩

/-- Trains a model.  The tally counts all blocked pairs. -/
@[specialize] def train (p : Plan) (g : γ) (t : Tally) (left right : List Record) :
    Observed (Event α) (Trained α) :=
  match p.job.training with
  | .unsupervised classes => trainedByRuns (learnUnsupervised classes p.job.stopRule g t).1
  | .supervised => ⟨#[], p.trainLabeled left right⟩
  | .semiSupervised lambda =>
    match tallyTruth p.comparator left right with
    | .error e => .refuse e
    | .ok (matched, unmatched) =>
      trainedByRuns (learnSemiSupervised 1 (Arithmetic.ofFloat lambda) p.job.stopRule g t
        [matched, unmatched]).1

@[specialize] def score (p : Plan) (t : Tally) (left right : List Record) (m : Trained α) :
    Except Error (Findings α) := do
  p.job.matchRule.check
  let scores ← m.model.matchParallel p.job.matchRule (BlockIndex.ofRecords left) right
  return ⟨left.length, right.length, t, m, scores⟩

/-- All that a run finds out, with its milestones. -/
@[specialize] def findings (p : Plan) (g : γ) (left right : Contents) :
    Observed (Milestone α) (Findings α) := do
  let (l, r, t) ← p.counted left right
  let trained ← (p.train g t l r).mapEvents .estimation
  .note (.trained trained.model)
  .of (p.score t l r trained)

/-- Tells a sink about the matches among the findings. -/
@[specialize] def write (p : Plan) (sink : Sink σ α) (found : Except Error (Findings α)) :
    Action σ (Summary α) := do
  let f ← found
  return ⟨f, ← f.scores.write sink (Arithmetic.ofFloat p.job.cutoff)⟩

/-- A run: its milestones, and what is done with the sink. -/
@[specialize] def run (p : Plan) (g : γ) (left right : Contents) (sink : Sink σ α) :
    Array (Milestone α) × Action σ (Summary α) :=
  let x := p.findings g left right
  (x.events, p.write sink x.result)

end Plan

end Linkage
