import Linkage.Decimal.Reading
import Linkage.Job

/-
# Arguments

The program takes the path of a job and options.  A long option has its value after `=` or in the
next argument, the short one also right behind its letter.  After `--` all arguments are paths.
-/

namespace Linkage.CommandLine

/-- The options with a value. -/
inductive Flag where
  | output
  | cutoff
  | seed
  | logLevel
  deriving DecidableEq, Repr

/-- What the arguments ask for.  `cutoff` and `seed` replace those of the job. -/
structure Arguments where
  job : String
  output : Option String
  cutoff : Option Float
  seed : Option Nat
  logLevel : String

/-- Why the program is not run: help is asked for, or the arguments are wrong. -/
inductive Usage where
  | help
  | wrong (reason : String)
  deriving DecidableEq, Repr

/-- The arguments read so far, and the option whose value comes next.  `plain` is set after
`--`. -/
structure Reading where
  job : Option String := none
  output : Option String := none
  cutoff : Option Float := none
  seed : Option Nat := none
  logLevel : Option String := none
  awaiting : Option Flag := none
  plain : Bool := false

namespace Flag

def ofName? : String → Option Flag
  | "output" => some output
  | "cutoff" => some cutoff
  | "seed" => some seed
  | "log-level" => some logLevel
  | _ => none

/-- How an option is used: its long name and its value. -/
def usage : Flag → String
  | output => "--output <OUTPUT>"
  | cutoff => "--cutoff <CUTOFF>"
  | seed => "--seed <SEED>"
  | logLevel => "--log-level <LOG_LEVEL>"

end Flag

def withoutPlus (text : String) : List Char :=
  match text.toList with
  | '+' :: rest => rest
  | cs => cs

/-- Reads a count of 64 bits, with a plus sign or without. -/
def readCount? (text : String) : Option Nat :=
  match Decimal.digits (withoutPlus text) with
  | (d :: ds, []) =>
    let n := Decimal.valueOfDigits (d :: ds)
    if n < Nat.pow 2 64 then some n else none
  | _ => none

def wrongValue {β : Type} (flag : Flag) (value reason : String) : Except Usage β :=
  .error (.wrong ("invalid value '" ++ value ++ "' for '" ++ flag.usage ++ "': " ++ reason))

def noValue {β : Type} (flag : Flag) : Except Usage β :=
  .error (.wrong ("a value is required for '" ++ flag.usage ++ "' but none was supplied"))

def unexpected {β : Type} (arg : String) : Except Usage β :=
  .error (.wrong ("unexpected argument '" ++ arg ++ "' found"))

def cutoffFlaw (text : String) : String :=
  if text.isEmpty then "cannot parse float from empty string" else "invalid float literal"

def seedFlaw (text : String) : String :=
  match Decimal.digits (withoutPlus text) with
  | (_ :: _, []) => "number too large to fit in target type"
  | _ =>
    if text.isEmpty then "cannot parse integer from empty string"
    else "invalid digit found in string"

namespace Reading

def isSet (r : Reading) : Flag → Bool
  | .output => r.output.isSome
  | .cutoff => r.cutoff.isSome
  | .seed => r.seed.isSome
  | .logLevel => r.logLevel.isSome

/-- Gives an option its value.  An option may be given once. -/
def set (r : Reading) (flag : Flag) (value : String) : Except Usage Reading :=
  if r.isSet flag then
    .error (.wrong ("the argument '" ++ flag.usage ++ "' cannot be used multiple times"))
  else
    match flag with
    | .output =>
      if value.isEmpty then noValue flag
      else .ok { r with output := some value, awaiting := none }
    | .cutoff =>
      match Decimal.readFloat? value with
      | some x => .ok { r with cutoff := some x, awaiting := none }
      | none => wrongValue flag value (cutoffFlaw value)
    | .seed =>
      match readCount? value with
      | some n => .ok { r with seed := some n, awaiting := none }
      | none => wrongValue flag value (seedFlaw value)
    | .logLevel => .ok { r with logLevel := some value, awaiting := none }

/-- Takes the path of the job, which may be given once. -/
def setJob (r : Reading) (path : String) : Except Usage Reading :=
  if path.isEmpty then .error (.wrong "a value is required for '<CONFIG>'")
  else if r.job.isSome then unexpected path
  else .ok { r with job := some path }

/-- Takes an option, with its value or to be followed by it. -/
def option (r : Reading) (flag : Flag) : (value : Option String) → Except Usage Reading
  | some value => r.set flag value
  | none => .ok { r with awaiting := some flag }

def longOption (r : Reading) (body : List Char) : Except Usage Reading :=
  let name := String.ofList (body.takeWhile (· ≠ '='))
  let value := match body.dropWhile (· ≠ '=') with
    | _ :: rest => some (String.ofList rest)
    | [] => none
  if name = "help" ∧ value.isNone then .error .help
  else
    match Flag.ofName? name with
    | some flag => r.option flag value
    | none => unexpected ("--" ++ name)

def shortOption (r : Reading) : List Char → Except Usage Reading
  | ['o'] => r.option .output none
  | 'o' :: '=' :: rest => r.set .output (String.ofList rest)
  | 'o' :: rest => r.set .output (String.ofList rest)
  | 'h' :: _ => .error .help
  | body => unexpected (String.ofList ('-' :: body.take 1))

/-- Takes an argument that is not the value of the option before it. -/
def fresh (r : Reading) (arg : String) : Except Usage Reading :=
  match arg.toList with
  | ['-', '-'] => .ok { r with plain := true }
  | '-' :: '-' :: body => r.longOption body
  | '-' :: c :: body => r.shortOption (c :: body)
  | _ => r.setJob arg

/-- Whether an argument looks like an option.  A single dash is a path. -/
def looksLikeOption (arg : String) : Bool :=
  match arg.toList with
  | '-' :: _ :: _ => true
  | _ => false

def step (r : Reading) (arg : String) : Except Usage Reading :=
  if r.plain then r.setJob arg
  else
    match r.awaiting with
    | none => r.fresh arg
    | some flag =>
      if looksLikeOption arg then noValue flag
      else r.set flag arg

def finish (r : Reading) : Except Usage Arguments :=
  match r.awaiting, r.job with
  | some flag, _ => noValue flag
  | none, none => .error (.wrong "the following required arguments were not provided: <CONFIG>")
  | none, some job => .ok ⟨job, r.output, r.cutoff, r.seed, r.logLevel.getD "info"⟩

end Reading

namespace Arguments

def ofList (args : List String) : Except Usage Arguments := do
  (← args.foldlM Reading.step {}).finish

/-- The job with the cutoff and the seed that the arguments give. -/
def override (a : Arguments) (j : Job) : Job :=
  { j with cutoff := a.cutoff.getD j.cutoff, seed := a.seed.orElse fun _ => j.seed }

def showsLog (a : Arguments) : Bool :=
  a.logLevel ≠ "warn" && a.logLevel ≠ "error"

def showsDetails (a : Arguments) : Bool :=
  a.logLevel = "debug" || a.logLevel = "trace"

end Arguments

def helpLines : List String :=
  ["Fellegi-Sunter record linkage", "", "Usage: fsmatch [OPTIONS] <CONFIG>", "", "Arguments:",
    "  <CONFIG>  Path to the JSON linkage configuration", "", "Options:",
    "  -o, --output <OUTPUT>        Write matches to this file instead of stdout",
    "      --cutoff <CUTOFF>        Override the configured score cutoff",
    "      --seed <SEED>            Override the configured EM seed",
    "      --log-level <LOG_LEVEL>  Log level [default: info]",
    "  -h, --help                   Print help"]

def helpText : String :=
  String.join (helpLines.map (· ++ "\n"))

end Linkage.CommandLine
