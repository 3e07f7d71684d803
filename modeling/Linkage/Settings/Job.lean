import Linkage.File
import Linkage.Job
import Linkage.Json.Reading
import Linkage.Settings.Comparator

/-
# Jobs in settings

A job is read from a JSON text.  What is not mentioned has its default value.
-/

namespace Linkage

/-- A value that may be missing, in JSON. -/
def optionJson {β : Type} (value : β → Json) : Option β → Json
  | none => .null
  | some x => value x

def natJson (n : Nat) : Json :=
  .number (.natural n)

def textsJson (texts : List String) : Json :=
  .array (texts.map .string)

namespace DelimitedOptions

/-- Reads options from the members of an object. -/
def ofJson : Json → Decoded DelimitedOptions
  | .object members => do
    let m ← Members.ofObject ["delimiter", "has_header", "comment", "blank_indicator"] members
    return {
      delimiter := ← m.optional "delimiter" ',' Json.asChar
      hasHeader := ← m.optional "has_header" false Json.asBool
      comment := ← m.optional "comment" (some '#') (Json.asOption Json.asChar)
      blankIndicator := ← m.optional "blank_indicator" (some "NA") (Json.asOption Json.asText) }
  | _ => .error "expected an object"

/-- The members that write options. -/
def members (o : DelimitedOptions) : List (String × Json) :=
  [("delimiter", .string (toString o.delimiter)), ("has_header", .bool o.hasHeader),
    ("comment", optionJson (fun c => .string (toString c)) o.comment),
    ("blank_indicator", optionJson .string o.blankIndicator)]

end DelimitedOptions

namespace Span

def ofJson (j : Json) : Decoded Span := do
  let m ← j.members ["start", "end"]
  return ⟨← m.required "start" Json.asNat, ← m.required "end" Json.asNat⟩

def toJson (s : Span) : Json :=
  .object [("start", natJson s.start), ("end", natJson s.stop)]

end Span

namespace Layout

/-- Reads a layout, which stands in a collection of a job. -/
def ofJson (j : Json) : Decoded Layout := do
  let (kind, parameters) ← j.tagged 2 "type" ["delimited", "fixed_width"] false
  if kind = "delimited" then return .delimited (← DelimitedOptions.ofJson parameters)
  else
    let m ← parameters.members ["spans"]
    return .fixedWidth (← m.required "spans" (Json.asList Span.ofJson))

def toJson : Layout → Json
  | delimited options => .object (("type", .string "delimited") :: options.members)
  | fixedWidth spans =>
    .object [("type", .string "fixed_width"), ("spans", .array (spans.map Span.toJson))]

end Layout

def readTexts : Json → Decoded (List String) :=
  Json.asList Json.asText

def readText? : Json → Decoded (Option String) :=
  Json.asOption Json.asText

namespace Side

def ofJson (j : Json) : Decoded Side := do
  let m ← j.members ["path", "format", "columns", "blocking_fields", "sequence_field", "id_field"]
  return {
    path := ← m.required "path" Json.asText
    layout := ← m.optional "format" (.delimited {}) Layout.ofJson
    columns := ← m.required "columns" readTexts
    blocking := ← m.required "blocking_fields" readTexts
    sequence := ← m.optional "sequence_field" none readText?
    id := ← m.optional "id_field" none readText? }

def toJson (s : Side) : Json :=
  .object [("path", .string s.path), ("format", s.layout.toJson),
    ("columns", textsJson s.columns), ("blocking_fields", textsJson s.blocking),
    ("sequence_field", optionJson .string s.sequence), ("id_field", optionJson .string s.id)]

end Side

namespace StandardComparator

def ofName? : String → Option StandardComparator
  | "exact" => some exact
  | "prorated" => some prorated
  | "year" => some year
  | "fuzzy" => some fuzzy
  | _ => none

def name : StandardComparator → String
  | exact => "exact"
  | prorated => "prorated"
  | year => "year"
  | fuzzy => "fuzzy"

/-- Reads a standard comparator: its name, or the name with `null` for its parameters. -/
def ofJson? : Json → Option StandardComparator
  | .string s => ofName? s
  | .object [(s, .null)] => ofName? s
  | _ => none

end StandardComparator

namespace ComparatorChoice

/-- Reads a choice, which stands in a comparison of the list of a job. -/
def ofJson (j : Json) : Decoded ComparatorChoice := do
  let outer := 3
  j.checkReadable outer
  match StandardComparator.ofJson? j with
  | some kind => return standard kind
  | none => return custom (← FieldComparator.ofJson outer true j)

def toJson : ComparatorChoice → Json
  | standard kind => .string kind.name
  | custom c => c.toJson

end ComparatorChoice

namespace Comparison

def ofJson (j : Json) : Decoded Comparison := do
  let m ← j.members ["field", "right_field", "comparator"]
  return {
    field := ← m.required "field" Json.asText
    rightField := ← m.optional "right_field" none readText?
    choice := ← m.required "comparator" ComparatorChoice.ofJson }

def toJson (c : Comparison) : Json :=
  .object [("field", .string c.field), ("right_field", optionJson .string c.rightField),
    ("comparator", c.choice.toJson)]

end Comparison

namespace Training

def modes : List String :=
  ["unsupervised", "supervised", "semi_supervised"]

/-- Reads a training, which stands in a job. -/
def ofJson (j : Json) : Decoded Training := do
  let (mode, parameters) ← j.tagged 1 "mode" modes false
  match mode with
  | "unsupervised" =>
    let m ← parameters.members ["n_classes"]
    return unsupervised (← m.optional "n_classes" 2 Json.asNat)
  | "supervised" =>
    parameters.checkEmpty
    return supervised
  | _ =>
    let m ← parameters.members ["lambda"]
    return semiSupervised (← m.required "lambda" Json.asFloat)

def toJson : Training → Json
  | unsupervised classes =>
    .object [("mode", .string "unsupervised"), ("n_classes", natJson classes)]
  | supervised => .object [("mode", .string "supervised")]
  | semiSupervised lambda =>
    .object [("mode", .string "semi_supervised"), ("lambda", .number (.double lambda))]

end Training

namespace StopRule

def ofJson (j : Json) : Decoded StopRule := do
  let standard : StopRule := {}
  let m ← j.members ["max_iterations", "tolerance", "restarts"]
  return {
    maxIterations := ← m.optional "max_iterations" standard.maxIterations Json.asNat
    tolerance := ← m.optional "tolerance" standard.tolerance Json.asFloat
    restarts := ← m.optional "restarts" standard.restarts Json.asNat }

def toJson (r : StopRule) : Json :=
  .object [("max_iterations", natJson r.maxIterations),
    ("tolerance", .number (.double r.tolerance)), ("restarts", natJson r.restarts)]

end StopRule

namespace MatchRule

def ofJson (j : Json) : Decoded MatchRule := do
  let standard : MatchRule := {}
  let m ← j.members ["work_threshold"]
  return ⟨← m.optional "work_threshold" standard.workThreshold Json.asNat⟩

def toJson (r : MatchRule) : Json :=
  .object [("work_threshold", natJson r.workThreshold)]

end MatchRule

namespace Job

def memberNames : List String :=
  ["left", "right", "comparisons", "handle_blanks", "training", "seed", "em", "matching", "cutoff"]

def ofJson (j : Json) : Decoded Job := do
  let m ← j.members memberNames
  return {
    left := ← m.required "left" Side.ofJson
    right := ← m.required "right" Side.ofJson
    comparisons := ← m.required "comparisons" (Json.asList Comparison.ofJson)
    handleBlanks := ← m.optional "handle_blanks" true Json.asBool
    training := ← m.optional "training" (.unsupervised 2) Training.ofJson
    seed := ← m.optional "seed" none (Json.asOption Json.asNat)
    stopRule := ← m.optional "em" {} StopRule.ofJson
    matchRule := ← m.optional "matching" {} MatchRule.ofJson
    cutoff := ← m.optional "cutoff" 0 Json.asFloat }

def toJson (j : Job) : Json :=
  .object [("left", j.left.toJson), ("right", j.right.toJson),
    ("comparisons", .array (j.comparisons.map Comparison.toJson)),
    ("handle_blanks", .bool j.handleBlanks), ("training", j.training.toJson),
    ("seed", optionJson natJson j.seed), ("em", j.stopRule.toJson),
    ("matching", j.matchRule.toJson), ("cutoff", .number (.double j.cutoff))]

/-- A job that passes its check, from JSON. -/
def checkedOfJson (json : Json) : Except Error Job := do
  let j ← (ofJson json).mapError fun reason => .invalidConfig (.malformed reason)
  j.check
  return j

/-- A job that passes its check, from a JSON text. -/
def ofText (text : String) : Except Error Job :=
  match Json.parse? text with
  | some json => checkedOfJson json
  | none => .error (.invalidConfig (.malformed "not a JSON text"))

/-- A job that passes its check, from what a path leads to. -/
def ofContents (path : String) : Contents → Except Error Job
  | .error fault => .error (.invalidConfig (.unreadable path fault.message))
  | .ok bytes =>
    match Text.ofUtf8? bytes with
    | some text => ofText text
    | none => .error (.invalidConfig (.unreadable path Error.lineNotUtf8.message))

end Job

end Linkage
