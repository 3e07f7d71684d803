import Linkage.Agreement.FieldComparator
import Linkage.Json.Reading
import Linkage.Settings.Decode

/-
# Comparators in settings

A comparator is an object whose `type` names its kind and whose other members are its parameters.
Parameters are read as they stand; whoever binds the comparator checks them.
-/

namespace Linkage

namespace Adjustments

/-- Reads adjustments.  Those that are not mentioned are on. -/
def ofJson (j : Json) : Decoded Adjustments := do
  let m ← j.members ["similar_characters", "winkler_prefix", "long_strings"]
  return {
    similarCharacters := ← m.optional "similar_characters" true Json.asBool
    sharedBeginning := ← m.optional "winkler_prefix" true Json.asBool
    longTexts := ← m.optional "long_strings" true Json.asBool }

def toJson (a : Adjustments) : Json :=
  .object [("similar_characters", .bool a.similarCharacters),
    ("winkler_prefix", .bool a.sharedBeginning), ("long_strings", .bool a.longTexts)]

end Adjustments

namespace FieldComparator

def kinds : List String :=
  ["exact", "prorated", "absolute_difference", "year_adjusted", "fuzzy_string"]

def readFloats : Json → Decoded (List Float) :=
  Json.asList Json.asFloat

/-- Reads a comparator nested in `outer` lists and objects.  `numbered` allows a kind to be given by
its position. -/
def ofJson (outer : Nat) (numbered : Bool) (j : Json) : Decoded FieldComparator := do
  let (kind, parameters) ← j.tagged outer "type" kinds numbered
  match kind with
  | "exact" =>
    parameters.checkEmpty
    return exact
  | "prorated" =>
    let m ← parameters.members ["slopes", "intercepts"]
    return prorated (← m.required "slopes" readFloats) (← m.required "intercepts" readFloats)
  | "absolute_difference" =>
    let m ← parameters.members ["thresholds"]
    return absoluteDifference (← m.required "thresholds" readFloats)
  | "year_adjusted" =>
    let m ← parameters.members ["base_year", "slopes", "intercepts"]
    return yearAdjusted (← m.required "base_year" Json.asInt32)
      (← m.required "slopes" readFloats) (← m.required "intercepts" readFloats)
  | _ =>
    let m ← parameters.members ["levels", "adjustments"]
    return fuzzy (← m.required "levels" readFloats)
      (← m.optional "adjustments" {} Adjustments.ofJson)

def ofText (text : String) : Except Error FieldComparator :=
  match Json.parse? text with
  | none => .error (.invalidConfig (.malformed "not a JSON text"))
  | some j => (ofJson 0 false j).mapError fun reason => .invalidConfig (.malformed reason)

def floatsJson (xs : List Float) : Json :=
  .array (xs.map fun x => .number (.double x))

def intJson (n : Int) : Json :=
  .number (if n < 0 then .negative n.natAbs else .natural n.toNat)

def toJson : FieldComparator → Json
  | exact => .object [("type", .string "exact")]
  | prorated slopes intercepts =>
    .object [("type", .string "prorated"), ("slopes", floatsJson slopes),
      ("intercepts", floatsJson intercepts)]
  | absoluteDifference thresholds =>
    .object [("type", .string "absolute_difference"), ("thresholds", floatsJson thresholds)]
  | yearAdjusted baseYear slopes intercepts =>
    .object [("type", .string "year_adjusted"), ("base_year", intJson baseYear),
      ("slopes", floatsJson slopes), ("intercepts", floatsJson intercepts)]
  | fuzzy levels adjustments =>
    .object [("type", .string "fuzzy_string"), ("levels", floatsJson levels),
      ("adjustments", adjustments.toJson)]

end FieldComparator

end Linkage
