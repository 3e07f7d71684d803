import Linkage.Text.Printable

/-
# Quoted texts

Messages show a value between quotes, with everything that could be misread escaped: the quote
itself, the backslash, line ends and tabs by a letter, other characters that are not printable by
their code point.

A terminal obeys some characters instead of showing them.  The log spells those out, so that a name
from outside cannot change what else is shown.  Tabs and line ends stay.
-/

namespace Linkage.Text

/-- A code point in lower-case hexadecimal digits. -/
def hex (n : Nat) : String :=
  String.ofList (Nat.toDigits 16 n)

/-- A character by its code point: `\u`, then the digits in braces. -/
def escapeCode (c : Char) : String :=
  "\\u\x7b" ++ hex c.toNat ++ "\x7d"

/-- The letters that stand for the escaped characters of frequent use. -/
def escapeLetter? (quote c : Char) : Option String :=
  if c = '\x00' then some "\\0"
  else if c = '\t' then some "\\t"
  else if c = '\r' then some "\\r"
  else if c = '\n' then some "\\n"
  else if c = '\\' then some "\\\\"
  else if c = quote then some ("\\" ++ quote.toString)
  else none

/-- A character between quotes.  One that extends the character before it is escaped too, so that
it cannot change how that one looks. -/
def escape (quote : Char) (c : Char) : String :=
  match escapeLetter? quote c with
  | some s => s
  | none => if isExtending c || !isPrintable c then escapeCode c else c.toString

/-- A text between double quotes: `"a\tb"`. -/
def quoted (s : String) : String :=
  "\"" ++ String.join (s.toList.map (escape '"')) ++ "\""

/-- A character between single quotes. -/
def quotedChar (c : Char) : String :=
  "'" ++ escape '\'' c ++ "'"

/-- A text of at least `width` characters, with blanks put before it. -/
def alignRight (width : Nat) (s : String) : String :=
  String.ofList (List.replicate (width - s.length) ' ') ++ s

/-- A text of at least `width` characters, with blanks put after it. -/
def alignLeft (width : Nat) (s : String) : String :=
  s ++ String.ofList (List.replicate (width - s.length) ' ')

/-! ## Texts on a terminal -/

/-- The spelling of a character that a terminal obeys: two hexadecimal digits for escape, bell,
backspace, form feed and delete, and the code point for a control beyond ASCII. -/
def spelling? (c : Char) : Option String :=
  match c with
  | '\x07' => some "\\x07"
  | '\x08' => some "\\x08"
  | '\x0c' => some "\\x0c"
  | '\x1b' => some "\\x1b"
  | '\x7f' => some "\\x7f"
  | c => if 0x80 ≤ c.toNat ∧ c.toNat ≤ 0x9f then some (escapeCode c) else none

/-- A text that a terminal shows as it is. -/
def forTerminal (s : String) : String :=
  String.join (s.toList.map fun c => (spelling? c).getD c.toString)

end Linkage.Text
