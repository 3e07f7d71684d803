import Linkage.CommandLine.Arguments
import Linkage.CommandLine.Host
import Linkage.Csv.Sink
import Linkage.Job.Plan
import Linkage.Settings.Job
import Linkage.Text.Quoted

/-
# The program

The program reads a job, does it, and writes the matches as rows of values to a file or to the
output.  Messages go to a stream of their own.  The exit code is 0 for success, 1 for a failure of
the job, 2 for wrong arguments and 101 for a promise that was not kept inside the program.
-/

namespace Linkage.CommandLine

/-- What an execution depends on besides its arguments: the current year, for ages, and a seed for
jobs without one. -/
structure Circumstances where
  currentYear : Int
  entropy : UInt64

/-- What is logged about a run that succeeded. -/
def summaryLines (s : Summary Float) : List String :=
  let f := s.findings
  ["Linked " ++ toString f.leftCount ++ " left and " ++ toString f.rightCount ++
      " right records: " ++ toString f.tally.total ++ " training pairs, " ++
      toString f.tally.size ++ " patterns",
    "Wrote " ++ toString s.written ++ " matches"]

variable {m : Type → Type} [Monad m]

/-- Logs some lines, if the log is shown. -/
def log (host : Host m) (a : Arguments) (lines : List String) : ExceptT Error m Unit :=
  if a.showsLog then lines.forM fun line => host.complain (Text.forTerminal line) else return

def logMilestones (host : Host m) (a : Arguments) (milestones : Array (Milestone Float)) :
    ExceptT Error m Unit :=
  log host a (milestones.toList.filterMap (Milestone.logLine? a.showsDetails))

/-- Makes the file for the matches before anything is read, so that a job does not run in vain. -/
def prepare (host : Host m) : (output : Option String) → ExceptT Error m Unit
  | none => return
  | some path => do
    match ← host.create path with
    | .ok () => return
    | .error fault => throw (.noFile fault)

def deliver (host : Host m) (rows : Output) : (output : Option String) → ExceptT Error m Unit
  | none => host.print rows.bytes
  | some path => do
    match ← host.write path rows.bytes with
    | .ok () => return
    | .error fault => throw (rows.refused fault.message)

def carryOut (host : Host m) (p : Plan) (c : Circumstances) (a : Arguments) :
    ExceptT Error m Unit := do
  let left ← host.read p.left.path
  let right ← host.read p.right.path
  let (milestones, action) := p.run (α := Float) (p.generator c.entropy) left right CsvSink.sink
  logMilestones host a milestones
  let (result, sink) := action.run { comparator := p.comparator }
  let summary ← result
  let rows ← sink.close
  deliver host rows a.output
  log host a (summaryLines summary)

/-- Does the job that the arguments ask for. -/
def execute (host : Host m) (c : Circumstances) (a : Arguments) : ExceptT Error m Unit := do
  let job ← Job.ofContents a.job (← host.read a.job)
  let plan ← Plan.make c.currentYear (a.override job)
  prepare host a.output
  carryOut host plan c a

/-- The message about a failure, and the exit code. -/
def verdict : Error → String × UInt32
  | .misuse promise => ("Failure: " ++ (Error.misuse promise).message, 101)
  | e => ("Error: " ++ e.message, 1)

/-- The program.  Its result is the exit code. -/
def program (host : Host m) (c : Circumstances) (args : List String) : m UInt32 := do
  match Arguments.ofList args with
  | .error .help =>
    host.print (Text.utf8 helpText)
    return 0
  | .error (.wrong reason) =>
    host.complain ("error: " ++ reason)
    return 2
  | .ok a =>
    match ← (execute host c a).run with
    | .ok () => return 0
    | .error e =>
      let (message, code) := verdict e
      host.complain message
      return code

end Linkage.CommandLine
