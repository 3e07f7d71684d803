import Linkage.File
import Linkage.Record

/-
# Fixed-width sources

A fixed-width source is a text with one record per line.  Every column occupies the same
characters of every line.  Empty lines are passed over, but they are counted.
-/

namespace Linkage

/-- The characters of a line from `start` on and before `stop`. -/
structure Span where
  start : Nat
  stop : Nat
  deriving DecidableEq, Repr

namespace Span

/-- The part of a line that a span covers. -/
def cut (s : Span) (line : List Char) : String :=
  String.ofList ((line.drop s.start).take (s.stop - s.start))

end Span

namespace FixedWidth

/-- Refuses spans unless there is one per column and none ends before it starts. -/
def check (s : Schema) (spans : List Span) : Except Error Unit :=
  if spans.length ≠ s.columns.length then
    .error (.invalidConfig (.spanCount s.columns.length spans.length))
  else
    match (s.columns.zip spans).find? fun (_, span) => span.stop < span.start with
    | some (column, span) => .error (.invalidConfig (.spanReversed column span.start span.stop))
    | none => .ok ()

/-- How many characters a line must have. -/
def width (spans : List Span) : Nat :=
  spans.foldl (fun width span => max width span.stop) 0

/-- Adds a byte before some lines.  A line feed ends a line of its own. -/
def addByte (b : UInt8) (lines : List (List UInt8)) : List (List UInt8) :=
  if b = 10 then [] :: lines
  else
    match lines with
    | [] => [[b]]
    | line :: more => (b :: line) :: more

/-- The lines of a text.  The last line may lack its line feed. -/
def lines (bytes : List UInt8) : List (List UInt8) :=
  bytes.foldr addByte []

/-- A line without the carriage returns at its end. -/
def stripReturns (line : List Char) : List Char :=
  (line.reverse.dropWhile (· = '\r')).reverse

def values (spans : List Span) (number : Nat) (line : List Char) : Except Error (List String) :=
  if line.length < width spans then .error (.shortLine number line.length (width spans))
  else .ok (spans.map fun span => span.cut line)

/-- The characters of a line, or none if it is passed over. -/
def lineText (bytes : List UInt8) : Except Error (Option (List Char)) :=
  match Text.ofUtf8? bytes with
  | none => .error .lineNotUtf8
  | some text =>
    let line := stripReturns text.toList
    .ok (if line.isEmpty then none else some line)

/-- The records of a line: one, or none if it is passed over. -/
def lineRecords (s : Schema) (spans : List Span) (line : List UInt8 × Nat) :
    Intake (List Record) := do
  match ← (lineText line.1 : Except Error (Option (List Char))) with
  | none => return []
  | some text =>
    let row ← (values spans line.2 text : Except Error (List String))
    return [← s.record row]

def records (s : Schema) (spans : List Span) (bytes : List UInt8) : Intake (List Record) := do
  return (← ((lines bytes).zipIdx 1).mapM (lineRecords s spans)).flatten

end FixedWidth

end Linkage
