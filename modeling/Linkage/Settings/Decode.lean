import Linkage.Json.Value

/-
# Reading values from JSON

A structure is read from an object, whose unknown members are passed over and whose known members
must not repeat, or from an array that lists the members in their order.  A variant is an object
with a tag, or an array that starts with one; it is read as a whole before its tag is known, so all
its parts must be readable and nested no deeper than `Json.deepest`.
-/

namespace Linkage

/-- What reading yields: a value, or why there is none. -/
abbrev Decoded := Except String

namespace Json

def asBool : Json → Decoded Bool
  | bool b => .ok b
  | _ => .error "expected a flag"

def asText : Json → Decoded String
  | string s => .ok s
  | _ => .error "expected a text"

/-- Reads a text of one character. -/
def asChar : Json → Decoded Char
  | string s =>
    match s.toList with
    | [c] => .ok c
    | _ => .error "expected one character"
  | _ => .error "expected one character"

def asNat : Json → Decoded Nat
  | number (.natural n) => .ok n
  | _ => .error "expected a count"

def asInt32 : Json → Decoded Int
  | number (.natural n) =>
    if n < Nat.pow 2 31 then .ok n else .error "expected a whole number of 32 bits"
  | number (.negative n) =>
    if n ≤ Nat.pow 2 31 then .ok (-(n : Int)) else .error "expected a whole number of 32 bits"
  | _ => .error "expected a whole number of 32 bits"

def asFloat : Json → Decoded Float
  | number (.natural n) => .ok n.toUInt64.toFloat
  | number (.negative n) => .ok (-n.toUInt64.toFloat)
  | number (.double x) => .ok x
  | _ => .error "expected a number"

def asList {β : Type} (item : Json → Decoded β) : Json → Decoded (List β)
  | array items => items.mapM item
  | _ => .error "expected a list"

def asOption {β : Type} (value : Json → Decoded β) : Json → Decoded (Option β)
  | null => .ok none
  | j => return some (← value j)

mutual

/-- Whether every part of a value can be read. -/
def isReadable : Json → Bool
  | unreadable => false
  | array items => areReadable items
  | object members => membersReadable members
  | _ => true

def areReadable : List Json → Bool
  | [] => true
  | j :: rest => j.isReadable && areReadable rest

def membersReadable : List (String × Json) → Bool
  | [] => true
  | (_, j) :: rest => j.isReadable && membersReadable rest

end

mutual

/-- How deep lists and objects are nested in a value. -/
def depth : Json → Nat
  | array items => depthOfItems items + 1
  | object members => depthOfMembers members + 1
  | _ => 0

def depthOfItems : List Json → Nat
  | [] => 0
  | j :: rest => max j.depth (depthOfItems rest)

def depthOfMembers : List (String × Json) → Nat
  | [] => 0
  | (_, j) :: rest => max j.depth (depthOfMembers rest)

end

/-- How many lists and objects may be nested around a part of a value. -/
def deepest : Nat := 127

/-- Refuses a value, nested in `outer` lists and objects, that is nested too deep or has a part that
cannot be read. -/
def checkReadable (outer : Nat) (j : Json) : Decoded Unit :=
  if deepest < outer + j.depth then .error "nested too deep"
  else if j.isReadable then .ok ()
  else .error "number or text out of range"

end Json

/-- The known members of a structure that are present. -/
abbrev Members := List (String × Json)

/-- The members of an object with the given names, each at most once. -/
def Members.ofObject (names : List String) (members : List (String × Json)) : Decoded Members :=
  names.foldlM
    (fun found name =>
      match members.filter (·.1 == name) with
      | [] => .ok found
      | [m] => .ok (found ++ [m])
      | _ => .error ("duplicate member " ++ name))
    []

/-- The members of a structure, by name or by position. -/
def Json.members (names : List String) : Json → Decoded Members
  | .object members => Members.ofObject names members
  | .array items =>
    if items.length ≤ names.length then .ok (names.zip items) else .error "too many members"
  | _ => .error "expected a structure"

/-- Refuses items where there are no parameters.  Members are passed over. -/
def Json.checkEmpty : Json → Decoded Unit
  | .array (_ :: _) => .error "too many members"
  | _ => .ok ()

namespace Members

/-- Reads a member that must be present. -/
def required {β : Type} (m : Members) (name : String) (value : Json → Decoded β) : Decoded β :=
  match m.lookup name with
  | some j => value j
  | none => .error ("missing member " ++ name)

/-- Reads a member that stands for `default` when it is missing. -/
def optional {β : Type} (m : Members) (name : String) (default : β) (value : Json → Decoded β) :
    Decoded β :=
  match m.lookup name with
  | some j => value j
  | none => .ok default

end Members

/-- Reads a tag: one of the names or, where `numbered` says so, the position of one. -/
def readTag (names : List String) (numbered : Bool) : Json → Decoded String
  | .string s => if names.contains s then .ok s else .error ("unknown variant " ++ s)
  | .number (.natural n) =>
    match names[n]? with
    | some name => if numbered then .ok name else .error "expected a variant"
    | none => .error "expected a variant"
  | _ => .error "expected a variant"

/-- Splits a tagged value, nested in `outer` lists and objects, into its tag and the rest. -/
def Json.tagged (outer : Nat) (key : String) (names : List String) (numbered : Bool) (j : Json) :
    Decoded (String × Json) := do
  j.checkReadable outer
  match j with
  | .object members =>
    match members.filter (·.1 == key) with
    | [(_, tag)] =>
      return (← readTag names numbered tag, .object (members.filter (·.1 != key)))
    | [] => .error ("missing member " ++ key)
    | _ => .error ("duplicate member " ++ key)
  | .array (tag :: rest) => return (← readTag names numbered tag, .array rest)
  | _ => .error "expected a variant"

end Linkage
