import Linkage.Decimal.Layout
import Linkage.File
import Linkage.Text.Quoted

/-
# What can go wrong

Every failure of the library is a value of `Error`, which names the cause.  The wording is in
`Error.message` and in the functions it calls, and nowhere else.

Where a state is kept up to the failure and after it, what changes the state is an `Action`.
-/

namespace Linkage

/-- What a field value was to be read as. -/
inductive NumberKind where
  | integer
  | number
  deriving DecidableEq, Repr

/-- What a column is looked up for. -/
inductive ColumnRole where
  | blocking
  | sequence
  | id
  | column
  deriving DecidableEq, Repr

/-- Why a comparator is refused. -/
inductive ComparatorFlaw where
  | noSlope
  | unequalLengths (slopes intercepts : Nat)
  | pairsNotIncreasing (pairs : List (Float × Float))
  | noThreshold
  | thresholdsNotIncreasing (thresholds : List Float)
  | noLevel
  | levelsNotDecreasing (levels : List Float)
  | noComparison
  | tooManyPatterns

/-- Why the arguments of a model or of its estimation are refused.  Numbers of the model's
arithmetic appear by their text. -/
inductive ModelFlaw where
  | tooFewClasses (classes : Nat)
  | matchClassCount (classes given : Nat)
  | rowCount (cls given expected : Nat)
  | levelCount (cls comparator given expected : Nat)
  | rowSum (cls comparator : Nat) (sum : String)
  | priorCount (expected given : Nat)
  | matchClassList (given : List Nat) (classes : Nat)
  | noTally
  | emptyTally
  | lambdaRange (lambda : String)
  | noIterations
  | tolerance (tolerance : String)
  | noRestarts
  deriving DecidableEq, Repr

/-- Why a configuration or the options of a source are refused. -/
inductive SettingFlaw where
  | malformed (reason : String)
  | unreadable (path reason : String)
  | noComparison
  | cutoff (cutoff : Float)
  | workThreshold (threshold : Nat)
  | tooFewClasses (classes : Nat)
  | lambdaRange (lambda : Float)
  | noIdField
  | notAscii (role : String) (char : Char)
  | spanCount (expected given : Nat)
  | spanReversed (column : String) (start stop : Nat)

/-- A promise of the caller that was not kept.  The functions that return it refuse to answer. -/
inductive Misuse where
  | patternIndex (index count : Nat)
  | patternLength (given expected : Nat)
  | level (level levels : Nat)
  | outOfBounds
  | countTooLarge
  | vectorTooLong
  deriving DecidableEq, Repr

/-- Why an operation has no result. -/
inductive Error where
  | unknownColumn (role : ColumnRole) (name : String)
  | unknownField (name : String)
  | columnCount (expected actual : Nat)
  | notNumeric (value : String) (kind : NumberKind)
  | invalidComparator (flaw : ComparatorFlaw)
  | invalidModel (flaw : ModelFlaw)
  | comparatorMismatch
  | missingId
  | degenerateClass (cls : Nat)
  | degeneratePattern (index : Nat)
  | invalidConfig (flaw : SettingFlaw)
  /-- No records from a source; the cause is the error of a row or one of the next six. -/
  | recordLoading (source : String) (cause : Error)
  | noSuchSource
  | noFile (fault : FileFault)
  | noRows (fault : FileFault)
  | shortLine (line given expected : Nat)
  | lineNotUtf8
  | valueNotUtf8
  | output (reason : String)
  | io (reason : String)
  | misuse (promise : Misuse)

/-- Texts in brackets, separated by commas. -/
def bracketed (texts : List String) : String :=
  "[" ++ ", ".intercalate texts ++ "]"

namespace NumberKind

def text : NumberKind → String
  | integer => "integer"
  | number => "number"

end NumberKind

namespace ColumnRole

def text : ColumnRole → String
  | blocking => "blocking"
  | sequence => "sequence"
  | id => "id"
  | column => "column"

end ColumnRole

namespace ComparatorFlaw

def message : ComparatorFlaw → String
  | noSlope => "prorated comparator needs at least one slope"
  | unequalLengths slopes intercepts =>
    "slopes and intercepts should have the same length (" ++ toString slopes ++ " vs " ++
      toString intercepts ++ ")"
  | pairsNotIncreasing pairs =>
    "(slope, intercept) pairs should be strictly increasing, got " ++
      bracketed (pairs.map fun (s, i) => "(" ++ Decimal.exact s ++ ", " ++ Decimal.exact i ++ ")")
  | noThreshold => "difference comparator needs at least one threshold"
  | thresholdsNotIncreasing thresholds =>
    "difference thresholds should be strictly increasing, got " ++
      bracketed (thresholds.map Decimal.exact)
  | noLevel => "fuzzy comparator needs at least one level"
  | levelsNotDecreasing levels =>
    "fuzzy levels should be strictly decreasing, got " ++ bracketed (levels.map Decimal.exact)
  | noComparison => "need at least one field comparison"
  | tooManyPatterns => "pattern space is too large"

end ComparatorFlaw

namespace ModelFlaw

def message : ModelFlaw → String
  | tooFewClasses classes => "need at least two classes, got " ++ toString classes
  | matchClassCount classes given =>
    "need between 1 and " ++ toString (classes - 1) ++ " match classes, got " ++ toString given
  | rowCount cls given expected =>
    "class " ++ toString cls ++ " has " ++ toString given ++ " weight rows, expected " ++
      toString expected
  | levelCount cls comparator given expected =>
    "class " ++ toString cls ++ " comparator " ++ toString comparator ++ " has " ++
      toString given ++ " levels, expected " ++ toString expected
  | rowSum cls comparator sum =>
    "class " ++ toString cls ++ " comparator " ++ toString comparator ++ " weights sum to " ++ sum
  | priorCount expected given =>
    "expected " ++ toString expected ++ " class priors, got " ++ toString given
  | matchClassList given classes =>
    "invalid match class list " ++ bracketed (given.map toString) ++ " for " ++
      toString classes ++ " classes"
  | noTally => "no tallies given"
  | emptyTally => "tallies must not be empty"
  | lambdaRange lambda => "lambda must be in [0, 1], got " ++ lambda
  | noIterations => "max_iterations must be at least 1"
  | tolerance given => "tolerance must be positive, got " ++ given
  | noRestarts => "restarts must be at least 1"

end ModelFlaw

namespace SettingFlaw

def message : SettingFlaw → String
  | malformed reason => reason
  | unreadable path reason => "cannot read " ++ path ++ ": " ++ reason
  | noComparison => "at least one comparison is required"
  | cutoff given => "cutoff must be finite, got " ++ Decimal.plain given
  | workThreshold threshold => "work_threshold must be at least 2, got " ++ toString threshold
  | tooFewClasses classes =>
    "unsupervised training needs at least two classes, got " ++ toString classes
  | lambdaRange lambda => "lambda must be in [0, 1], got " ++ Decimal.plain lambda
  | noIdField => "supervised training needs an id field on both sources"
  | notAscii role char =>
    role ++ " must be an ASCII character, got " ++ Text.quotedChar char
  | spanCount expected given =>
    "expected " ++ toString expected ++ " column spans, got " ++ toString given
  | spanReversed column start stop =>
    "span of column " ++ Text.quoted column ++ " ends before it starts (" ++ toString start ++
      ".." ++ toString stop ++ ")"

end SettingFlaw

namespace Misuse

/-- The wording of a broken promise, where it has one. -/
def message? : Misuse → Option String
  | patternIndex index count =>
    some ("pattern index " ++ toString index ++ " out of range 0.." ++ toString count)
  | patternLength given expected =>
    some ("pattern has " ++ toString given ++ " levels, comparator has " ++ toString expected)
  | level given levels =>
    some ("level " ++ toString given ++ " out of range 0.." ++ toString levels)
  | outOfBounds => none
  | countTooLarge => none
  | vectorTooLong => none

end Misuse

namespace Error

def message : Error → String
  | unknownColumn role name => "No such column (" ++ role.text ++ "): " ++ name
  | unknownField name => "No such field: " ++ name
  | columnCount expected actual =>
    "Wrong number of columns to construct a record: expected " ++ toString expected ++
      ", got " ++ toString actual
  | notNumeric value kind =>
    "Field value " ++ Text.quoted value ++ " is not a valid " ++ kind.text
  | invalidComparator flaw => "Invalid comparator: " ++ flaw.message
  | invalidModel flaw => "Invalid model arguments: " ++ flaw.message
  | comparatorMismatch => "All tallies must share the same record comparator"
  | missingId => "Records must come from schemas with an id field"
  | degenerateClass cls =>
    "Class " ++ toString cls ++ " received no expected mass during estimation"
  | degeneratePattern index =>
    "Pattern " ++ toString index ++ " has zero likelihood under every class"
  | invalidConfig flaw => "Invalid configuration: " ++ flaw.message
  | recordLoading source cause =>
    "Failed to load records from " ++ source ++ ": " ++ cause.message
  | noSuchSource => "no such source"
  | noFile fault => fault.message
  | noRows fault => fault.message
  | shortLine line given expected =>
    "line " ++ toString line ++ " has " ++ toString given ++ " characters, expected at least " ++
      toString expected
  | lineNotUtf8 => "stream did not contain valid UTF-8"
  | valueNotUtf8 => "a value is not valid UTF-8"
  | output reason => "Output error: " ++ reason
  | io reason => "IO error: " ++ reason
  | misuse promise => promise.message?.getD "a size or a position is out of bounds"

end Error

/-- An action on a state that may fail.  What it did to the state before it failed stays done. -/
abbrev Action (σ β : Type) := ExceptT Error (StateM σ) β

namespace Action

variable {σ τ β : Type}

/-- The state after an action that succeeds. -/
def exec (action : Action σ Unit) (s : σ) : Except Error σ :=
  match action.run s with
  | (.ok (), s) => .ok s
  | (.error e, _) => .error e

/-- An action on a part of the state, which `update` replaces. -/
def onPart (part : σ → τ) (update : σ → τ → σ) (action : Action τ β) : Action σ β := fun s =>
  let (result, t) := action.run (part s)
  (result, update s t)

end Action

end Linkage
