/-
# Characters that two texts have in common

The characters of the first text are matched one by one, each with the first free equal character
of the second text inside a window around its own position.  A mark per character says whether it
found a partner.
-/

namespace Linkage.Similarity

/-- Which characters of two texts have a partner in the other. -/
structure Marks where
  first : List Bool
  second : List Bool
  deriving DecidableEq, Repr

/-- How far a partner may stand from a character's own position: half the longer length, less
one.  It is -1 for texts of one character, which have no partners. -/
def radius (length1 length2 : Nat) : Int :=
  (max length1 length2 / 2 : Nat) - 1

def windowStart (r : Int) (i : Nat) : Nat :=
  (max (i - r) 0).toNat

/-- The position after the window of position `i`, in a text of length `n`. -/
def windowStop (r : Int) (i n : Nat) : Nat :=
  (min (i + r) n).toNat

/-- The first position in a window that holds `c` and is not taken.  `j` is the position of the
head of the two lists. -/
def partner? (c : Char) (start stop : Nat) : (j : Nat) → List Char → List Bool → Option Nat
  | j, x :: xs, t :: ts =>
    if stop ≤ j then none
    else if start ≤ j && !t && x == c then some j
    else partner? c start stop (j + 1) xs ts
  | _, _, _ => none

/-- Matches the characters of the first text from position `i` on.  `taken` marks the characters
of the second text that have a partner already. -/
def marksFrom (r : Int) (s2 : List Char) : (i : Nat) → List Char → (taken : List Bool) → Marks
  | _, [], taken => ⟨[], taken⟩
  | i, c :: cs, taken =>
    match partner? c (windowStart r i) (windowStop r i s2.length) 0 s2 taken with
    | some j =>
      let rest := marksFrom r s2 (i + 1) cs (taken.set j true)
      ⟨true :: rest.first, rest.second⟩
    | none =>
      let rest := marksFrom r s2 (i + 1) cs taken
      ⟨false :: rest.first, rest.second⟩

/-- Matches the characters of two texts. -/
def marks (s1 s2 : List Char) : Marks :=
  marksFrom (radius s1.length s2.length) s2 0 s1 (List.replicate s2.length false)

def Marks.common (m : Marks) : Nat :=
  m.first.count true

/-- The marked or the unmarked characters of a text, in order. -/
def select (mark : Bool) (s : List Char) (marks : List Bool) : List Char :=
  ((s.zip marks).filter fun p => p.2 == mark).map Prod.fst

/-- Half the number of places in which the marked characters of both texts, read in order,
disagree. -/
def Marks.transposed (m : Marks) (s1 s2 : List Char) : Nat :=
  ((select true s1 m.first).zip (select true s2 m.second)).countP (fun p => p.1 != p.2) / 2

end Linkage.Similarity
