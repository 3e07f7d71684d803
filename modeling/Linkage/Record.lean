import Linkage.Field
import Linkage.Schema

/-
# Records

A record is built from a row of column texts.  Its blocking key joins the texts of the blocking
columns; its sequence value is the text of the sequence column or, without one, a running number
of the schema.
-/

namespace Linkage

/-- One row, taken apart by the uses of its columns.  The id is empty without an id column. -/
structure Record where
  schema : Schema
  key : String
  id : String
  sequence : String
  fields : Array Field
  deriving DecidableEq, Repr

/-- Building records.  The state is the next running number of the schema; a number that was
given out before a failure stays given out. -/
abbrev Intake := Action Nat

/-- Names the source in the failure of an intake. -/
def Intake.fromSource {β : Type} (source : String) (x : Intake β) : Intake β :=
  ExceptT.adapt (Error.recordLoading source) x

namespace Schema

def valueAt (s : Schema) (row : List String) (name : String) : String :=
  ((lastIndex? name s.columns).bind (row[·]?)).getD ""

def keyOf (s : Schema) (row : List String) : String :=
  String.join (s.blocking.map (s.valueAt row))

/-- The record of a row with its sequence value given. -/
def recordOf (s : Schema) (row : List String) (sequence : String) : Record where
  schema := s
  key := s.keyOf row
  id := (s.id.map (s.valueAt row)).getD ""
  sequence := sequence
  fields := (s.fields.map fun name => ⟨s.valueAt row name⟩).toArray

/-- Builds the record of a row.  A row of the wrong length is refused and takes no number. -/
def record (s : Schema) (row : List String) : Intake Record := do
  if row.length = s.columns.length then
    match s.sequence with
    | some name => return s.recordOf row (s.valueAt row name)
    | none =>
      let next ← getModify (· + 1)
      return s.recordOf row (toString next)
  else
    throw (.columnCount s.columns.length row.length)

/-- Builds the records of some rows, up to the first that is refused. -/
def records (s : Schema) (rows : List (List String)) : Intake (List Record) :=
  rows.mapM s.record

end Schema

namespace Record

/-- Whether two records have the same schema and the same content.  Their sequence values may
differ. -/
def agrees (a b : Record) : Bool :=
  a.schema.serial == b.schema.serial && a.key == b.key && a.id == b.id && a.fields == b.fields

def field (r : Record) (i : Nat) : Except Error Field :=
  match r.fields[i]? with
  | some f => .ok f
  | none => .error (.misuse .outOfBounds)

/-- The text of a record in match lists. -/
def display (r : Record) : String :=
  "Key: " ++ r.key ++ ", " ++
    (if r.schema.hasId then "ID: " ++ r.id ++ ", " else "") ++
    "Fields: " ++ bracketed (r.fields.toList.map Field.text)

end Record

end Linkage
