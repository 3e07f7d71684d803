import Linkage.Error

/-
# Schemas

A schema says what the columns of a row are for.  A *column* is a column of the incoming data; a
*field* is a column that takes part in comparison.  Blocking, sequence and id columns are not
fields.  A name that several columns share means the last of them.
-/

namespace Linkage

/-- The position of the last element of a list that equals `name`. -/
def lastIndex? (name : String) : List String → Option Nat
  | [] => none
  | x :: xs =>
    match lastIndex? name xs with
    | some i => some (i + 1)
    | none => if x = name then some 0 else none

/-- The use of every column of a row.  Two schemas are the same one only if they have the same
serial: equal columns alone do not make two sources one. -/
structure Schema where
  serial : Nat
  columns : List String
  blocking : List String
  sequence : Option String
  id : Option String
  deriving DecidableEq, Repr

namespace Schema

/-- Whether a column name has a use other than comparison. -/
def isSpecial (s : Schema) (name : String) : Bool :=
  s.blocking.contains name || s.sequence == some name || s.id == some name

/-- The names of the fields, in column order. -/
def fields (s : Schema) : List String :=
  s.columns.filter fun name => !s.isSpecial name

def hasId (s : Schema) : Bool :=
  s.id.isSome

/-- The position of a column, looked up for some purpose. -/
def find (s : Schema) (role : ColumnRole) (name : String) : Except Error Nat :=
  match lastIndex? name s.columns with
  | some i => .ok i
  | none => .error (.unknownColumn role name)

def columnIndex (s : Schema) (name : String) : Except Error Nat :=
  s.find .column name

def fieldIndex (s : Schema) (name : String) : Except Error Nat :=
  match lastIndex? name s.fields with
  | some i => .ok i
  | none => .error (.unknownField name)

/-- Refuses a schema whose blocking, sequence or id names are not among its columns, in this
order. -/
def check (s : Schema) : Except Error Unit := do
  s.blocking.forM fun name => discard (s.find .blocking name)
  s.sequence.toList.forM fun name => discard (s.find .sequence name)
  s.id.toList.forM fun name => discard (s.find .id name)

def make (serial : Nat) (columns blocking : List String) (sequence id : Option String) :
    Except Error Schema := do
  let s : Schema := ⟨serial, columns, blocking, sequence, id⟩
  s.check
  return s

end Schema

end Linkage
