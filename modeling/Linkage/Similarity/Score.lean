import Linkage.Arithmetic
import Linkage.Similarity.Partners
import Linkage.Text.Property
import Linkage.Text.Uppercase

/-
# Similarity of names

The similarity of two texts is a number from 0, nothing in common, to 1, which only lookalikes can
exceed.  Its base is the mean of three shares: the common characters in either text, and those of
them that are in order.  Three adjustments raise it: lookalikes count as 0.3 of a common character,
and pairs that look alike already gain from a shared beginning and from length.
-/

namespace Linkage

/-- Which adjustments are applied. -/
structure Adjustments where
  similarCharacters : Bool := true
  sharedBeginning : Bool := true
  longTexts : Bool := true
  deriving DecidableEq, Repr

def Adjustments.none : Adjustments :=
  ⟨false, false, false⟩

namespace Similarity

/-- A text as it is compared: without blanks at its ends, in upper case. -/
def normalize (s : String) : List Char :=
  Text.upperChars (Text.trimChars s.toList)

/-! ## Characters that look or sound alike -/

/-- The confusable pairs. -/
def lookalikes : List (Char × Char) :=
  [('A', 'E'), ('A', 'I'), ('A', 'O'), ('A', 'U'), ('B', 'V'), ('E', 'I'), ('E', 'O'),
    ('E', 'U'), ('I', 'O'), ('I', 'U'), ('O', 'U'), ('I', 'Y'), ('E', 'Y'), ('C', 'G'),
    ('E', 'F'), ('W', 'U'), ('W', 'V'), ('X', 'K'), ('S', 'Z'), ('X', 'S'), ('Q', 'C'),
    ('U', 'V'), ('M', 'N'), ('L', 'I'), ('Q', 'O'), ('P', 'R'), ('I', 'J'), ('2', 'Z'),
    ('5', 'S'), ('8', 'B'), ('1', 'I'), ('1', 'L'), ('0', 'O'), ('0', 'Q'), ('C', 'K'),
    ('G', 'J'), ('E', ' '), ('Y', ' '), ('S', ' ')]

/-- Whether two characters are a confusable pair, in either order. -/
def isLookalike (a b : Char) : Bool :=
  lookalikes.any fun (x, y) => (x == a && y == b) || (x == b && y == a)

/-- How many unmarked characters of the first text have a lookalike among the unmarked characters
of the second. -/
def Marks.similar (m : Marks) (s1 s2 : List Char) : Nat :=
  (select false s1 m.first).countP fun a => (select false s2 m.second).any (isLookalike a)

/-! ## The score -/

/-- What the base of the similarity depends on. -/
structure Counts where
  length1 : Nat
  length2 : Nat
  common : Nat
  transposed : Nat
  similar : Nat
  deriving DecidableEq, Repr

def Counts.ofTexts (s1 s2 : List Char) : Counts :=
  let m := marks s1 s2
  { length1 := s1.length
    length2 := s2.length
    common := m.common
    transposed := m.transposed s1 s2
    similar := m.similar s1 s2 }

def Counts.minLength (n : Counts) : Nat :=
  min n.length1 n.length2

/-- The longest beginning that is rewarded. -/
def maxBeginning : Nat := 4

/-- How many characters the two texts share at their beginning, as long as they are alphabetic and
up to a limit. -/
def beginning : (limit : Nat) → List Char → List Char → Nat
  | limit + 1, a :: as, b :: bs =>
    if a == b && Text.isAlphabetic b then beginning limit as bs + 1 else 0
  | _, _, _ => 0

def beginsAlphabetic (s : List Char) : Bool :=
  s.head?.any Text.isAlphabetic

section

variable {α : Type} [Arithmetic α]

/-- The common characters, with the lookalikes at their lower weight. -/
def Counts.matched (n : Counts) (a : Adjustments) : α :=
  if a.similarCharacters && n.common < n.minLength then
    (n.common : α) + 0.3 * (n.similar : α)
  else (n.common : α)

/-- The mean of the three shares. -/
def Counts.base (n : Counts) (a : Adjustments) : α :=
  let matched : α := n.matched a
  (matched / (n.length1 : α) + matched / (n.length2 : α) +
    ((n.common - n.transposed : Nat) : α) / (n.common : α)) / 3.0

/-- The base moved towards 1 by a tenth of the distance for every shared beginning character. -/
def raiseByBeginning (shared : Nat) (weight : α) : α :=
  weight + (shared : α) * 0.1 * (1 - weight)

/-- Whether length is rewarded: after the shared beginning at least two more characters agree, and
those that agree are more than half of what remains. -/
def Counts.isLong (n : Counts) (shared : Nat) (alphabetic : Bool) : Bool :=
  maxBeginning < n.minLength && shared + 1 < n.common && n.minLength + shared < 2 * n.common &&
    alphabetic

/-- The weight moved towards 1 by the share of the characters that agree after the beginning. -/
def Counts.raiseByLength (n : Counts) (shared : Nat) (weight : α) : α :=
  weight + (1 - weight) * ((n.common - shared - 1 : Nat) : α) /
    ((n.length1 + n.length2 - 2 * shared + 2 : Nat) : α)

/-- The base with the two raises, which only pairs above 0.7 get. -/
def Counts.weigh (n : Counts) (a : Adjustments) (shared : Nat) (alphabetic : Bool) : α :=
  let base : α := n.base a
  if 0.7 < base then
    let shared := if a.sharedBeginning then shared else 0
    let weight := if a.sharedBeginning then raiseByBeginning shared base else base
    if a.longTexts && n.isLong shared alphabetic then n.raiseByLength shared weight else weight
  else base

/-- The similarity of two normalized texts. -/
def ofChars (a : Adjustments) (s1 s2 : List Char) : α :=
  let n := Counts.ofTexts s1 s2
  if n.common = 0 then 0
  else n.weigh a (beginning maxBeginning s1 s2) (beginsAlphabetic s1)

end

end Similarity

/-- The similarity of two texts.  A blank text has similarity 0 with everything. -/
def similarity {α : Type} [Arithmetic α] (a : Adjustments) (s1 s2 : String) : α :=
  Similarity.ofChars a (Similarity.normalize s1) (Similarity.normalize s2)

end Linkage
