import Linkage.Agreement.RecordComparator
import Linkage.Arithmetic
import Linkage.Csv.Rows
import Linkage.File
import Linkage.Output
import Linkage.Score.Sink

/-
# Matches as rows of values

Matches are written with commas between the values: a header, and for every match its score and
the compared values of both records, side by side.

A value is written as soon as it comes, and its closing quote with what comes next.  When a row ends,
it must be as long as the first one; otherwise it is refused, and its values stay: they are the
beginning of the next row.
-/

namespace Linkage

namespace Csv

/-- Whether a value would be misread without quotes. -/
def needsQuotes (v : Value) : Bool :=
  v.any fun b => b == comma || b == quote || Reader.endsLine b

/-- A byte in quotes: a quote is doubled, and the pair stays whole. -/
def inQuotes (b : UInt8) : List UInt8 :=
  if b = quote then [quote, quote] else [b]

/-- The pieces of a value without a closing quote. -/
def opened (v : Value) : List (List UInt8) :=
  if needsQuotes v then [quote] :: v.map inQuotes else v.map fun b => [b]

/-- The quote that closes the last of some values, if it needs quotes. -/
def closing (row : List Value) : List (List UInt8) :=
  if row.getLast?.any needsQuotes then [[quote]] else []

/-- The pieces with which a value comes behind the values of its row. -/
def joining (row : List Value) (v : Value) : List (List UInt8) :=
  (if row = [] then [] else closing row ++ [[comma]]) ++ opened v

/-- Two quotes for a row without bytes, which would be read as no row. -/
def marking (row : List Value) : List (List UInt8) :=
  if row = [] ∨ row = [[]] then [[quote, quote]] else []

/-- The pieces that end a row. -/
def ending (row : List Value) : List (List UInt8) :=
  closing row ++ marking row ++ [[lineFeed]]

/-- A writer of rows.  The rows are as wide as the first, and `begun` is the one that is not
ended. -/
structure Writer where
  output : Output := {}
  width : Option Nat := none
  begun : List Value := []

namespace Writer

def put (pieces : List (List UInt8)) : Action Writer Unit :=
  .onPart output (fun w output => { w with output }) (pieces.forM Output.put)

def putValue (v : Value) : Action Writer Unit := do
  put (joining (← get).begun v)
  modify fun w => { w with begun := w.begun ++ [v] }

/-- Refuses to end a row that is not as long as the first one. -/
def checkWidth : Action Writer Unit := do
  let w ← get
  let width := w.width.getD w.begun.length
  if w.begun.length = width then set { w with width := some width }
  else
    throw (.output ("CSV error: found record with " ++ toString w.begun.length ++
      " fields, but the previous record has " ++ toString width ++ " fields"))

def endRow : Action Writer Unit := do
  checkWidth
  put (ending (← get).begun)
  modify fun w => { w with begun := [] }

def putRow (row : List Value) : Action Writer Unit := do
  row.forM putValue
  endRow

end Writer

/-- The elements of two lists, by turns. -/
def interleave {β : Type} (as bs : List β) : List β :=
  (as.zip bs).flatMap fun (a, b) => [a, b]

end Csv

/-- A sink that writes the matches of a comparator. -/
structure CsvSink extends Csv.Writer where
  comparator : RecordComparator
  rows : Nat := 0

namespace CsvSink

def onWriter (action : Action Csv.Writer Unit) : Action CsvSink Unit :=
  .onPart toWriter (fun s writer => { s with toWriter := writer }) action

def putRow (row : List String) : Action CsvSink Unit :=
  onWriter (Csv.Writer.putRow (row.map Text.utf8))

/-- The names of the columns. -/
def header (fieldNames : List (String × String)) : List String :=
  "score" :: Csv.interleave (fieldNames.map ("a." ++ ·.1)) (fieldNames.map ("b." ++ ·.2))

/-- The values of a match. -/
def row {α : Type} [Arithmetic α] (c : RecordComparator) (a b : Record) (score : α) :
    Except Error (List String) := do
  return Arithmetic.text score :: Csv.interleave (← c.valuesA a) (← c.valuesB b)

/-- The sink: a row for the header, and then one for every match. -/
def sink {α : Type} [Arithmetic α] : Sink CsvSink α
  | .start fieldNames => putRow (header fieldNames)
  | .accept a b score => do
    putRow (← (row (← get).comparator a b score : Except Error (List String)))
    modify fun s => { s with rows := s.rows + 1 }
  | .finish => onWriter (.onPart Csv.Writer.output (fun w output => { w with output })
      (Output.flush .io))

/-- The output once all is passed on. -/
def close (s : CsvSink) : Except Error Output :=
  s.output.close

end CsvSink

end Linkage
