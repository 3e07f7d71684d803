import Linkage.Mixture.Model
import Linkage.Score.ScoreMap

/-
# Matching

Every blocked pair is scored.  Matching in parallel halves the right collection until a part is
below the work threshold, scores the parts on their own and joins the score maps of the two
halves, the left half first.
-/

namespace Linkage

/-- How work is divided. -/
structure MatchRule where
  workThreshold : Nat := 1000
  deriving BEq, Repr

/-- Refuses a threshold that would divide single records. -/
def MatchRule.check (r : MatchRule) : Except Error Unit :=
  if r.workThreshold < 2 then .error (.invalidConfig (.workThreshold r.workThreshold)) else .ok ()

/-- Joins the results of two halves.  A broken promise in either half breaks the whole; other
failures count in order. -/
def joinHalves {β : Type} (join : β → β → β) : Except Error β → Except Error β → Except Error β
  | .error (.misuse p), _ => .error (.misuse p)
  | _, .error (.misuse p) => .error (.misuse p)
  | low, high => do return join (← low) (← high)

namespace Model

variable {α : Type} [Arithmetic α] [Ord α]

/-- Scores a pair and adds it to a map. -/
@[specialize] def insertPair (m : Model α) (scores : ScoreMap α) (pair : Record × Record) :
    Except Error (ScoreMap α) := do
  return scores.insert ⟨pair.1, pair.2, ← m.score pair.1 pair.2⟩

/-- Scores all blocked pairs in order. -/
@[specialize] def matchSequential (m : Model α) (index : BlockIndex) (right : List Record) :
    Except Error (ScoreMap α) :=
  (index.pairs right).foldlM m.insertPair (ScoreMap.empty m.comparator.fieldNames)

/-- Scores all blocked pairs, by halves. -/
@[specialize] def matchParallel (m : Model α) (r : MatchRule) (index : BlockIndex)
    (right : List Record) : Except Error (ScoreMap α) :=
  if right.length < r.workThreshold ∨ right.length < 2 then m.matchSequential index right
  else
    let half := right.length / 2
    joinHalves ScoreMap.merge (m.matchParallel r index (right.take half))
      (m.matchParallel r index (right.drop half))
termination_by right.length
decreasing_by
  · simp only [List.length_take]; omega
  · simp only [List.length_drop]; omega

end Model

end Linkage
