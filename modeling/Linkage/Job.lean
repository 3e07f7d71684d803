import Linkage.Agreement.FieldComparator
import Linkage.Estimation.Run
import Linkage.Score.Matching
import Linkage.Source

/-
# Jobs

A job says which two collections are linked, which of their fields are compared, how the model is
trained and from which score on pairs are matches.
-/

namespace Linkage

/-- One of the two collections: its file, and what the columns of the file are for. -/
structure Side where
  path : String
  layout : Layout := .delimited {}
  columns : List String
  blocking : List String
  sequence : Option String := none
  id : Option String := none
  deriving DecidableEq, Repr

namespace Side

def schema (s : Side) (serial : Nat) : Except Error Schema :=
  Schema.make serial s.columns s.blocking s.sequence s.id

def source (s : Side) (serial : Nat) : Except Error Source := do
  Source.make s.path (← s.schema serial) s.layout

end Side

/-- A comparator with the standard parameters. -/
inductive StandardComparator where
  | exact
  | prorated
  | year
  | fuzzy
  deriving DecidableEq, Repr

/-- A choice of comparator: a standard one, or one with given parameters. -/
inductive ComparatorChoice where
  | standard (kind : StandardComparator)
  | custom (comparator : FieldComparator)
  deriving BEq, Repr

/-- The comparator that was chosen.  The standard comparator for years counts from the current
year. -/
def ComparatorChoice.comparator (currentYear : Int) : ComparatorChoice → FieldComparator
  | standard .exact => .exact
  | standard .prorated => .standardProrated
  | standard .year => .standardYear currentYear
  | standard .fuzzy => .standardFuzzy
  | custom c => c

/-- A field of the left collection, the field of the right one if its name is another, and the
comparator for them. -/
structure Comparison where
  field : String
  rightField : Option String := none
  choice : ComparatorChoice
  deriving BEq, Repr

def Comparison.rightName (c : Comparison) : String :=
  c.rightField.getD c.field

/-- How the model is found: from all pairs, from pairs that ids label as matches or not, or from
both. -/
inductive Training where
  | unsupervised (classes : Nat)
  | supervised
  | semiSupervised (lambda : Float)
  deriving BEq, Repr

/-- A linkage to be done. -/
structure Job where
  left : Side
  right : Side
  comparisons : List Comparison
  handleBlanks : Bool := true
  training : Training := .unsupervised 2
  seed : Option Nat := none
  stopRule : StopRule := {}
  matchRule : MatchRule := {}
  cutoff : Float := 0
  deriving BEq, Repr

namespace Job

/-- Refuses labels without an id on both sides. -/
def checkIds (j : Job) : Except Error Unit :=
  if j.left.id.isNone || j.right.id.isNone then .error (.invalidConfig .noIdField) else .ok ()

def checkTraining (j : Job) : Except Error Unit :=
  match j.training with
  | .unsupervised classes =>
    if classes < 2 then .error (.invalidConfig (.tooFewClasses classes)) else .ok ()
  | .supervised => j.checkIds
  | .semiSupervised lambda =>
    if 0 ≤ lambda ∧ lambda ≤ 1 then j.checkIds else .error (.invalidConfig (.lambdaRange lambda))

/-- Refuses a job that cannot be done whatever the files hold. -/
def check (j : Job) : Except Error Unit := do
  if j.comparisons.isEmpty then throw (.invalidConfig .noComparison)
  if !j.cutoff.isFinite then throw (.invalidConfig (.cutoff j.cutoff))
  j.stopRule.check
  j.matchRule.check
  j.checkTraining

end Job

end Linkage
