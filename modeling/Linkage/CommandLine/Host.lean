import Linkage.CommandLine.Files
import Linkage.File

/-
# Hosts

A host is what the program runs on: files to read and to write, an output, and a stream for
messages.  The host in memory shows what the program does with them.
-/

namespace Linkage.CommandLine

/-- What the program asks of its surroundings.  `create` makes an empty file, or empties the one
that is there, and `write` puts bytes into it. -/
structure Host (m : Type → Type) where
  read : (path : String) → m Contents
  create : (path : String) → m (Except FileFault Unit)
  write : (path : String) → List UInt8 → m (Except FileFault Unit)
  print : List UInt8 → m Unit
  complain : String → m Unit

/-- A host in memory: its files, what was printed, and the stream of messages. -/
structure Memory where
  files : Files := Files.standard
  printed : List UInt8 := []
  messages : List UInt8 := []

namespace Memory

def create (path : String) : StateM Memory (Except FileFault Unit) :=
  modifyGet fun s =>
    match s.files.create path with
    | .ok files => (.ok (), { s with files := files })
    | .error fault => (.error fault, s)

def print (s : Memory) (bytes : List UInt8) : Memory :=
  { s with printed := s.printed ++ bytes }

/-- Puts bytes among the messages. -/
def tell (s : Memory) (bytes : List UInt8) : Memory :=
  { s with messages := s.messages ++ bytes }

def writeAt (s : Memory) (bytes : List UInt8) (place : Place) : Except FileFault Memory :=
  match s.files.find? place with
  | some (.device .null) => .ok s
  | some (.device .full) => .error .noSpace
  | some (.device .console) => .ok (s.print bytes)
  | some (.device .messages) => .ok (s.tell bytes)
  | _ => .ok { s with files := s.files.put place (.file bytes) }

def write (path : String) (bytes : List UInt8) : StateM Memory (Except FileFault Unit) :=
  modifyGet fun s =>
    match s.files.createPlace path >>= s.writeAt bytes with
    | .ok s => (.ok (), s)
    | .error fault => (.error fault, s)

def host : Host (StateM Memory) where
  read path := do return (← get).files.read path
  create := create
  write := write
  print bytes := modify (print · bytes)
  complain message := modify fun s => s.tell (Text.utf8 (message ++ "\n"))

end Memory

end Linkage.CommandLine
