import Linkage.Source.Delimited
import Linkage.Source.FixedWidth

/-
# Sources

A source is a file with the records of one collection.  Its schema says what the columns are for,
and its layout where they are in the file.  The simplest sources are tables in memory, each with a
name.
-/

namespace Linkage

/-- How the columns of a file are laid out. -/
inductive Layout where
  | delimited (options : DelimitedOptions)
  | fixedWidth (spans : List Span)
  deriving DecidableEq, Repr

namespace Layout

/-- Refuses a layout that cannot be read, or that does not fit the schema. -/
def check (s : Schema) : Layout → Except Error Unit
  | delimited options => discard options.dialect
  | fixedWidth spans => FixedWidth.check s spans

/-- Why no records come from what a path leads to.  A directory can be opened like a delimited file,
and only then no rows come from it. -/
def failure (fault : FileFault) : Layout → Error
  | delimited _ => if fault = .isDirectory then .noRows fault else .noFile fault
  | fixedWidth _ => .noFile fault

def records (s : Schema) (bytes : List UInt8) : Layout → Intake (List Record)
  | delimited options => options.records s bytes
  | fixedWidth spans => FixedWidth.records s spans bytes

end Layout

/-- A file with the records of a schema. -/
structure Source where
  path : String
  schema : Schema
  layout : Layout

namespace Source

def make (path : String) (s : Schema) (layout : Layout) : Except Error Source := do
  layout.check s
  return ⟨path, s, layout⟩

/-- The records of a source, from what its path leads to. -/
def load (source : Source) (contents : Contents) : Intake (List Record) :=
  Intake.fromSource source.path <|
    match contents with
    | .ok bytes => source.layout.records source.schema bytes
    | .error fault => throw (source.layout.failure fault)

end Source

/-- Rows by the name of their table. -/
abbrev Tables := List (String × List (List String))

namespace Tables

/-- The records of a table.  Of several tables with one name the first counts. -/
def load (tables : Tables) (s : Schema) (source : String) : Intake (List Record) :=
  Intake.fromSource source <|
    match tables.lookup source with
    | some rows => s.records rows
    | none => throw .noSuchSource

end Tables

end Linkage
