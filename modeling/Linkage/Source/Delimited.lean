import Linkage.Csv.Rows
import Linkage.File
import Linkage.Record

/-
# Delimited sources

A delimited source is a text of delimited values with one record per row.  Values that equal the
blank indicator are read as blank.
-/

namespace Linkage

/-- How a delimited text is read.  The names of the columns always come from the schema; a header
is passed over. -/
structure DelimitedOptions where
  delimiter : Char := ','
  hasHeader : Bool := false
  comment : Option Char := some '#'
  blankIndicator : Option String := some "NA"
  deriving DecidableEq, Repr

/-- The byte of a character with a meaning, which must be ASCII. -/
def asciiByte (role : String) (c : Char) : Except Error UInt8 :=
  match Text.ascii? c with
  | some b => .ok b
  | none => .error (.invalidConfig (.notAscii role c))

namespace DelimitedOptions

def dialect (o : DelimitedOptions) : Except Error Csv.Dialect := do
  let delimiter ← asciiByte "delimiter" o.delimiter
  match o.comment with
  | none => return ⟨delimiter, none⟩
  | some c => return ⟨delimiter, some (← asciiByte "comment" c)⟩

def valueText (bytes : Csv.Value) : Except Error String :=
  match Text.ofUtf8? bytes with
  | some s => .ok s
  | none => .error .valueNotUtf8

/-- A value as it goes into a record. -/
def unblanked (o : DelimitedOptions) (value : String) : String :=
  if o.blankIndicator = some value then "" else value

def record (o : DelimitedOptions) (s : Schema) (row : List Csv.Value) : Intake Record := do
  let values ← (row.mapM valueText : Except Error (List String))
  s.record (values.map o.unblanked)

def dataRows (o : DelimitedOptions) (rows : List (List Csv.Value)) : List (List Csv.Value) :=
  if o.hasHeader then rows.drop 1 else rows

def records (o : DelimitedOptions) (s : Schema) (bytes : List UInt8) : Intake (List Record) := do
  let d ← (o.dialect : Except Error Csv.Dialect)
  (o.dataRows (Csv.rows d bytes)).mapM (o.record s)

end DelimitedOptions

end Linkage
