import Linkage.Arithmetic

/-
# A seeded generator of random numbers

The generator is the ChaCha stream with 12 rounds: a block of 16 words is a scrambled state of
four constants, eight key words, a 64-bit block counter and two zero words.  The key is expanded
from a 64-bit seed by a linear congruential sequence with permuted output.  Two words, the low one
first, make a draw of 64 bits, and the upper 53 bits of a draw make a number below 1.
-/

namespace Linkage

namespace ChaCha

/-- Sixteen words. -/
abbrev Block := Vector UInt32 16

/-- `x` with its bits moved to the left by `n`, in a circle. -/
def rotateLeft (x : UInt32) (n : UInt32) : UInt32 :=
  (x <<< n) ||| (x >>> (32 - n))

/-- Adds word `b` to word `a`, and mixes the result into word `d`, moved by `n`. -/
def mix (s : Block) (a b d : Fin 16) (n : UInt32) : Block :=
  let s := s.set a (s[a] + s[b])
  s.set d (rotateLeft (s[d] ^^^ s[a]) n)

/-- A quarter of a round. -/
def quarter (s : Block) (a b c d : Fin 16) : Block :=
  let s := mix s a b d 16
  let s := mix s c d b 12
  let s := mix s a b d 8
  mix s c d b 7

/-- Two rounds: the columns of the state as a square, then its diagonals. -/
def doubleRound (s : Block) : Block :=
  let s := quarter s 0 4 8 12
  let s := quarter s 1 5 9 13
  let s := quarter s 2 6 10 14
  let s := quarter s 3 7 11 15
  let s := quarter s 0 5 10 15
  let s := quarter s 1 6 11 12
  let s := quarter s 2 7 8 13
  quarter s 3 4 9 14

def rounds : (n : Nat) → Block → Block
  | 0, s => s
  | n + 1, s => rounds n (doubleRound s)

/-- The state of a block before it is scrambled. -/
def initial (key : Vector UInt32 8) (counter : UInt64) : Block :=
  #v[0x61707865, 0x3320646e, 0x79622d32, 0x6b206574,
    key[0], key[1], key[2], key[3], key[4], key[5], key[6], key[7],
    counter.toUInt32, (counter >>> 32).toUInt32, 0, 0]

/-- A block of the stream with 12 rounds. -/
def block (key : Vector UInt32 8) (counter : UInt64) : Block :=
  let s := initial key counter
  (rounds 6 s).zipWith (· + ·) s

/-- Joins pairs of words to draws of 64 bits, the low word first. -/
def draws : List UInt32 → List UInt64
  | low :: high :: rest => (low.toUInt64 ||| (high.toUInt64 <<< 32)) :: draws rest
  | _ => []

end ChaCha

/-- A generator: its key, the number of its next block and the draws left of the current one. -/
structure Generator where
  key : Vector UInt32 8
  counter : UInt64
  left : List UInt64

namespace Generator

/-- The next state of the sequence that expands a seed. -/
def nextSeed (s : UInt64) : UInt64 :=
  s * 6364136223846793005 + 11634580027462260723

/-- The key word that a state of the sequence stands for. -/
def keyWord (s : UInt64) : UInt32 :=
  let x := (((s >>> 18) ^^^ s) >>> 27).toUInt32
  let turn := (s >>> 59).toUInt32
  (x >>> turn) ||| (x <<< (32 - turn))

def keyAt (s : UInt64) : (i : Nat) → UInt32
  | 0 => keyWord (nextSeed s)
  | i + 1 => keyAt (nextSeed s) i

def ofSeed (seed : UInt64) : Generator :=
  ⟨Vector.ofFn fun i => keyAt seed i, 0, []⟩

/-- The next draw of 64 bits. -/
def next (g : Generator) : UInt64 × Generator :=
  match g.left with
  | w :: ws => (w, { g with left := ws })
  | [] =>
    match ChaCha.draws (ChaCha.block g.key g.counter).toList with
    | w :: ws => (w, { g with counter := g.counter + 1, left := ws })
    | [] => (0, { g with counter := g.counter + 1 })

/-- The next number between 0 and 1, a multiple of `2 ^ -53`. -/
def uniform (g : Generator) : Float × Generator :=
  let (w, g) := g.next
  ((w >>> 11).toFloat / 9007199254740992.0, g)

end Generator

instance {α : Type} [Arithmetic α] : Draws Generator α where
  draw g :=
    let (x, g) := g.uniform
    (Arithmetic.ofFloat x, g)

end Linkage
