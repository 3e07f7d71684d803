import Linkage.Json.Value
import Linkage.Text.Quoted

/-
# JSON strings

A string is read in two steps: first its letters and escapes become code units, then pairs of
surrogate units become characters.  A string in which a surrogate stands alone is well formed but
holds no text.
-/

namespace Linkage.Json

def hexDigit? (c : Char) : Option Nat :=
  if '0' ≤ c && c ≤ '9' then some (c.toNat - '0'.toNat)
  else if 'a' ≤ c && c ≤ 'f' then some (c.toNat - 'a'.toNat + 10)
  else if 'A' ≤ c && c ≤ 'F' then some (c.toNat - 'A'.toNat + 10)
  else none

/-- The code unit of four hexadecimal digits. -/
def unit? (a b c d : Char) : Option Nat := do
  let a ← hexDigit? a
  let b ← hexDigit? b
  let c ← hexDigit? c
  let d ← hexDigit? d
  return ((a * 16 + b) * 16 + c) * 16 + d

/-- The character that a letter after a backslash stands for. -/
def unescape? : Char → Option Char
  | '"' => some '"'
  | '\\' => some '\\'
  | '/' => some '/'
  | 'b' => some '\x08'
  | 'f' => some '\x0c'
  | 'n' => some '\n'
  | 'r' => some '\r'
  | 't' => some '\t'
  | _ => none

/-- The code units of a string whose opening quote has been read, and the text after its closing
quote.  Control characters must be escaped. -/
def units? : List Char → Option (List Nat × List Char)
  | [] => none
  | '"' :: rest => some ([], rest)
  | '\\' :: 'u' :: a :: b :: c :: d :: rest => do
    let n ← unit? a b c d
    let (ns, tail) ← units? rest
    return (n :: ns, tail)
  | '\\' :: c :: rest => do
    let e ← unescape? c
    let (ns, tail) ← units? rest
    return (e.toNat :: ns, tail)
  | c :: rest =>
    if c.toNat < 32 then none
    else do
      let (ns, tail) ← units? rest
      return (c.toNat :: ns, tail)

/-- Whether a code unit is the first of a surrogate pair. -/
def isHigh (n : Nat) : Bool :=
  0xd800 ≤ n && n < 0xdc00

/-- Whether a code unit is the second of a surrogate pair. -/
def isLow (n : Nat) : Bool :=
  0xdc00 ≤ n && n < 0xe000

/-- Joins surrogate pairs.  There is no text if a surrogate stands alone. -/
def ofUnits? : List Nat → Option (List Char)
  | [] => some []
  | n :: rest =>
    if isHigh n then
      match rest with
      | m :: rest =>
        if isLow m then
          let c := Char.ofNat (0x10000 + (n - 0xd800) * 0x400 + (m - 0xdc00))
          (ofUnits? rest).map (c :: ·)
        else none
      | [] => none
    else if isLow n then none
    else (ofUnits? rest).map (Char.ofNat n :: ·)

/-- One character between quotes. -/
def escape (c : Char) : String :=
  match c with
  | '"' => "\\\""
  | '\\' => "\\\\"
  | '\x08' => "\\b"
  | '\x0c' => "\\f"
  | '\n' => "\\n"
  | '\r' => "\\r"
  | '\t' => "\\t"
  | c =>
    if c.toNat < 32 then
      let digits := Text.hex c.toNat
      "\\u" ++ String.ofList (List.replicate (4 - digits.length) '0') ++ digits
    else c.toString

def quote (s : String) : String :=
  "\"" ++ s.foldl (fun text c => text ++ escape c) "" ++ "\""

end Linkage.Json
