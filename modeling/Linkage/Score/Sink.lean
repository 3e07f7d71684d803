import Linkage.Record

/-
# Sinks

A sink receives matches.  It is told the names of the compared fields, then every match with its
score, and that there are no more.  Whatever it is told, it may change its state and it may fail.
-/

namespace Linkage

/-- What a sink is told. -/
inductive Notice (α : Type) where
  | start (fieldNames : List (String × String))
  | accept (a b : Record) (score : α)
  | finish

/-- What a sink with states `σ` does on a notice. -/
abbrev Sink (σ α : Type) := Notice α → Action σ Unit

/-- A sink in memory: the field names, the matches as texts, and whether there are no more. -/
structure MatchList (α : Type) where
  header : List (String × String) := []
  rows : Array (α × String × String) := #[]
  finished : Bool := false

namespace MatchList

variable {α : Type}

def note (l : MatchList α) : Notice α → MatchList α
  | .start fieldNames => { l with header := fieldNames }
  | .accept a b score => { l with rows := l.rows.push (score, a.display, b.display) }
  | .finish => { l with finished := true }

/-- The sink that notes everything down and never fails. -/
def sink : Sink (MatchList α) α := fun notice =>
  modify fun l => l.note notice

end MatchList

end Linkage
