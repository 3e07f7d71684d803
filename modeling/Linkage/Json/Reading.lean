import Linkage.Json.Quoted
import Linkage.Json.Value

/-
# Reading JSON

The reader accepts exactly one value with blanks around it.  Every value takes at least one
character, so the length of the text bounds the depth of the recursion.
-/

namespace Linkage.Json

/-- Drops blanks: spaces, tabs and line ends. -/
def skipBlanks : List Char → List Char
  | [] => []
  | c :: rest =>
    if c = ' ' || c = '\n' || c = '\t' || c = '\r' then skipBlanks rest else c :: rest

/-- Splits off a word. -/
def word? (word : String) (value : Json) (cs : List Char) : Option (Json × List Char) :=
  let n := word.toList.length
  if cs.take n = word.toList then some (value, cs.drop n) else none

/-- The text of a string, if it holds one. -/
def textOf? (units : List Nat) : Option String :=
  (ofUnits? units).map String.ofList

/-- Splits off a key: a string, with its text. -/
def key? : List Char → Option (Option String × List Char)
  | '"' :: rest => do
    let (units, tail) ← units? rest
    return (textOf? units, tail)
  | _ => none

def colon? (cs : List Char) : Option (List Char) :=
  match skipBlanks cs with
  | ':' :: rest => some rest
  | _ => none

/-- Puts a member before others.  All of them need keys that hold a text. -/
def consMember (key : Option String) (value : Json) (members : Option (List (String × Json))) :
    Option (List (String × Json)) := do
  return (← key, value) :: (← members)

/-- The object with some members, if all their keys hold a text. -/
def ofMembers : Option (List (String × Json)) → Json
  | some members => .object members
  | none => .unreadable

mutual

def value? : (fuel : Nat) → List Char → Option (Json × List Char)
  | 0, _ => none
  | fuel + 1, cs =>
    match skipBlanks cs with
    | '"' :: rest => do
      let (units, tail) ← units? rest
      match textOf? units with
      | some text => return (.string text, tail)
      | none => return (.unreadable, tail)
    | '[' :: rest =>
      match skipBlanks rest with
      | ']' :: tail => some (.array [], tail)
      | rest => do
        let (items, tail) ← items? fuel rest
        return (.array items, tail)
    | '\x7b' :: rest =>
      match skipBlanks rest with
      | '\x7d' :: tail => some (.object [], tail)
      | rest => do
        let (members, tail) ← members? fuel rest
        return (ofMembers members, tail)
    | 'n' :: rest => word? "ull" .null rest
    | 't' :: rest => word? "rue" (.bool true) rest
    | 'f' :: rest => word? "alse" (.bool false) rest
    | rest => number? rest

def items? : (fuel : Nat) → List Char → Option (List Json × List Char)
  | 0, _ => none
  | fuel + 1, cs => do
    let (item, rest) ← value? fuel cs
    match skipBlanks rest with
    | ',' :: rest =>
      let (items, tail) ← items? fuel rest
      return (item :: items, tail)
    | ']' :: tail => return ([item], tail)
    | _ => none

def members? : (fuel : Nat) → List Char → Option (Option (List (String × Json)) × List Char)
  | 0, _ => none
  | fuel + 1, cs => do
    let (key, rest) ← key? (skipBlanks cs)
    let rest ← colon? rest
    let (value, rest) ← value? fuel rest
    match skipBlanks rest with
    | ',' :: rest =>
      let (members, tail) ← members? fuel rest
      return (consMember key value members, tail)
    | '\x7d' :: tail => return (consMember key value (some []), tail)
    | _ => none

end

def parse? (text : String) : Option Json := do
  let cs := text.toList
  let (value, rest) ← value? (cs.length + 1) cs
  if (skipBlanks rest).isEmpty then some value else none

end Linkage.Json
