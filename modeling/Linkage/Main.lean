import Linkage.CommandLine.Program
import Std.Time.Zoned

/-
# The executable

The program on the operating system: its files, its standard streams and its clock.
-/

namespace Linkage.CommandLine

/-- The fault with a number of the operating system, which some of its calls give with a minus
sign. -/
def faultOfCode? (code : UInt32) : Option FileFault :=
  match min code (0 - code) with
  | 2 => some .notFound
  | 20 => some .notDirectory
  | 21 => some .isDirectory
  | 28 => some .noSpace
  | 36 => some .nameTooLong
  | _ => none

/-- The fault behind a failure of the operating system. -/
def faultOf (e : IO.Error) : FileFault :=
  let known := match e with
    | .noFileOrDirectory _ code _ => faultOfCode? code
    | .inappropriateType _ code _ => faultOfCode? code
    | .invalidArgument _ code _ => faultOfCode? code
    | .resourceExhausted _ code _ => faultOfCode? code
    | _ => none
  known.getD (.other (toString e))

/-- Writes a file and passes its bytes on to the device. -/
def writeFile (path : String) (bytes : List UInt8) : IO Unit :=
  IO.FS.withFile path .write fun file => do
    file.write ⟨bytes.toArray⟩
    file.flush

/-- The result of an action on the file of a path. -/
def attempt {β : Type} (path : String) (action : IO β) : IO (Except FileFault β) :=
  match Path.fault? path with
  | some fault => return .error fault
  | none => do
    try
      return .ok (← action)
    catch e => return .error (faultOf e)

def systemHost : Host IO where
  read path := attempt path do return (← IO.FS.readBinFile path).data.toList
  create path := attempt path (writeFile path [])
  write path bytes := attempt path (writeFile path bytes)
  print bytes := do
    let output ← IO.getStdout
    output.write ⟨bytes.toArray⟩
    output.flush
  complain message := IO.eprintln message

/-- The year on the clock, and a seed from the random numbers of the operating system. -/
def circumstances : IO Circumstances := do
  let now ← Std.Time.PlainDateTime.now
  let bytes ← IO.getRandomBytes 8
  return ⟨now.year, bytes.data.foldl (fun n b => n * 256 + b.toUInt64) 0⟩

end Linkage.CommandLine

open Linkage.CommandLine in
def main (args : List String) : IO UInt32 := do
  program systemHost (← circumstances) args
