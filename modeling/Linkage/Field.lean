import Linkage.Decimal.Reading
import Linkage.Error
import Linkage.Text.Property

/-
# Fields

A field is one value of a record that takes part in comparison.  It is a text; numeric comparators
read it as a number, with the blanks around it removed.
-/

namespace Linkage

/-- One value of a record. -/
structure Field where
  text : String
  deriving DecidableEq, Repr

namespace Field

def isBlank (f : Field) : Bool :=
  Text.allBlank f.text

/-- The field as a whole number of 64 bits. -/
def asInt (f : Field) : Except Error Int :=
  match Decimal.readInt? (Text.trim f.text) with
  | some n => .ok n
  | none => .error (.notNumeric f.text .integer)

def asFloat (f : Field) : Except Error Float :=
  match Decimal.readFloat? (Text.trim f.text) with
  | some x => .ok x
  | none => .error (.notNumeric f.text .number)

end Field

end Linkage
