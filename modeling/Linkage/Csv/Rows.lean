/-
# Rows of delimited values

A text of delimited values is read byte by byte.  A row ends with a line feed or a carriage
return, and empty lines are no rows.  A value that begins with a quote goes on to the next single
quote, and a doubled quote in it stands for one; what follows the closing quote is taken as it
stands.  A line that begins with the comment byte is passed over.
-/

namespace Linkage.Csv

/-- The byte between two values of a row. -/
def comma : UInt8 := 44

/-- The byte around a quoted value. -/
def quote : UInt8 := 34

/-- The byte that ends a line. -/
def lineFeed : UInt8 := 10

/-- The byte that ends a line on its own or before a line feed. -/
def carriageReturn : UInt8 := 13

/-- The bytes with a meaning that may be chosen. -/
structure Dialect where
  delimiter : UInt8 := comma
  comment : Option UInt8 := none

abbrev Value := List UInt8

/-- Where in a row the reader stands.  `afterQuote` is after a quote in a quoted value, which
closes the value or is the first half of a doubled quote. -/
inductive Place where
  | startOfRow
  | startOfValue
  | inValue
  | inQuotes
  | afterQuote
  | inComment
  deriving DecidableEq, Repr

/-- What was read so far: the complete rows, the complete values of the current row, and the
bytes of the current value, each with the last one first. -/
structure Reader where
  place : Place := .startOfRow
  value : List UInt8 := []
  row : List Value := []
  rows : List (List Value) := []

namespace Reader

def keep (r : Reader) (b : UInt8) (place : Place) : Reader :=
  { r with place := place, value := b :: r.value }

def endValue (r : Reader) : Reader :=
  { r with place := .startOfValue, value := [], row := r.value.reverse :: r.row }

def endRow (r : Reader) : Reader where
  place := .startOfRow
  value := []
  row := []
  rows := (r.value.reverse :: r.row).reverse :: r.rows

def endsLine (b : UInt8) : Bool :=
  b == lineFeed || b == carriageReturn

/-- Reads a byte of a value that is not quoted, or not any more. -/
def stepPlain (d : Dialect) (r : Reader) (b : UInt8) : Reader :=
  if b = d.delimiter then r.endValue
  else if endsLine b then r.endRow
  else r.keep b .inValue

def stepValue (d : Dialect) (r : Reader) (b : UInt8) : Reader :=
  if b = quote then { r with place := .inQuotes } else r.stepPlain d b

def stepRow (d : Dialect) (r : Reader) (b : UInt8) : Reader :=
  if endsLine b then r
  else if d.comment = some b then { r with place := .inComment }
  else r.stepValue d b

def step (d : Dialect) (r : Reader) (b : UInt8) : Reader :=
  match r.place with
  | .startOfRow => r.stepRow d b
  | .startOfValue => r.stepValue d b
  | .inValue => r.stepPlain d b
  | .inQuotes => if b = quote then { r with place := .afterQuote } else r.keep b .inQuotes
  | .afterQuote => if b = quote then r.keep b .inQuotes else r.stepPlain d b
  | .inComment => if b = lineFeed then { r with place := .startOfRow } else r

/-- Ends the text.  An unfinished row counts, and so does an unfinished comment, as a row of one
empty value. -/
def finish (r : Reader) : List (List Value) :=
  match r.place with
  | .startOfRow => r.rows.reverse
  | _ => r.endRow.rows.reverse

end Reader

/-- The mark that may precede a text in UTF-8. -/
def byteOrderMark : List UInt8 := [0xEF, 0xBB, 0xBF]

/-- A text without a byte order mark. -/
def dropMark (bytes : List UInt8) : List UInt8 :=
  if byteOrderMark.isPrefixOf bytes then bytes.drop 3 else bytes

def rows (d : Dialect) (bytes : List UInt8) : List (List Value) :=
  ((dropMark bytes).foldl (Reader.step d) {}).finish

end Linkage.Csv
