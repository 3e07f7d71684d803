import Linkage.Decimal.Layout
import Linkage.Json.Quoted

/-
# Writing JSON

The text of a value without blanks.  Doubles are written with the fewest digits that read back and
always look like doubles, a tie going to the even digit; what no JSON number can express is written
as `null`.
-/

namespace Linkage.Json

def Number.text : Number → String
  | natural n => toString n
  | negative n => "-" ++ toString n
  | double x => if x.isNaN || x.isInf then "null" else Decimal.exactWith .even x

mutual

def render : Json → String
  | null => "null"
  | bool b => if b then "true" else "false"
  | number n => n.text
  | string s => quote s
  | array items => "[" ++ renderItems "" items ++ "]"
  | object members => "\x7b" ++ renderMembers "" members ++ "\x7d"
  | unreadable => "null"

/-- The texts of some items, each after a separator. -/
def renderItems (separator : String) : List Json → String
  | [] => ""
  | j :: rest => separator ++ render j ++ renderItems "," rest

/-- The texts of some members, each after a separator. -/
def renderMembers (separator : String) : List (String × Json) → String
  | [] => ""
  | (k, j) :: rest => separator ++ quote k ++ ":" ++ render j ++ renderMembers "," rest

end

end Linkage.Json
