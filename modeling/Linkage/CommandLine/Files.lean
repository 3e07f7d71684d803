import Linkage.File

/-
# Files by path

A path is a text of names with slashes between them.  It starts at the root if a slash comes first,
and a slash at its end asks for a directory.  The names `.` and `..` stand for the directory itself
and for the one around it.

A tree of files in memory.  A place in the tree is the list of names on the way from the root, and
what is at a place is a directory, a file or a device.  Paths that do not start at the root start in
the working directory.

A path is followed name by name.  All names but the last must lead to directories; what the last
one may lead to depends on whether a file is to be read or to be made.
-/

namespace Linkage.CommandLine

/-- A path that is not just the root: the names of directories on the way, and the last name. -/
structure Path where
  fromRoot : Bool
  way : List String
  last : String
  endsInSlash : Bool
  deriving DecidableEq, Repr

namespace Path

/-- How many bytes the text of a path may have. -/
def maxSize : Nat := 4095

def maxNameSize : Nat := 255

/-- Why a text cannot be a path, whatever files there are. -/
def fault? (text : String) : Option FileFault :=
  if text.toList.contains '\x00' then some .nulInName
  else if text.isEmpty then some .notFound
  else if maxSize < text.utf8ByteSize then some .nameTooLong
  else none

/-- The path of a text, or none if the text is just the root. -/
def ofText? (text : String) : Option Path :=
  match ((text.splitOn "/").filter (· ≠ "")).reverse with
  | [] => none
  | last :: way =>
    some ⟨text.startsWith "/", way.reverse, last, text.endsWith "/"⟩

def checkName (name : String) : Except FileFault Unit :=
  if maxNameSize < name.utf8ByteSize then .error .nameTooLong else .ok ()

end Path

/-- The names on the way from the root. -/
abbrev Place := List String

/-- The place that a name stands for in a directory.  The directory around the root is the root. -/
def Place.child (place : Place) (name : String) : Place :=
  if name = "." then place
  else if name = ".." then place.dropLast
  else place ++ [name]

/-- A file without bytes of its own: one that is empty and takes everything, one that takes nothing,
the output of the program, and the stream of its messages. -/
inductive Device where
  | null
  | full
  | console
  | messages
  deriving DecidableEq, Repr

/-- What is at a place. -/
inductive Node where
  | directory
  | file (bytes : List UInt8)
  | device (device : Device)
  deriving DecidableEq, Repr

/-- The nodes of a tree by place.  There are directories also on the way to every node. -/
structure Files where
  nodes : List (Place × Node) := []

namespace Files

/-- The working directory.  Its name is one that no path holds: it is reached as the directory where
paths start, and never by name. -/
def workingDirectory : Place := ["tmp", ""]

/-- The directories of the root that every system has, besides those on the way to other nodes. -/
def rootDirectories : List String :=
  ["bin", "etc", "home", "lib", "media", "mnt", "opt", "proc", "root", "run", "sbin", "srv", "sys",
    "usr", "var"]

/-- A tree without files.  It has the directories and devices that every system has. -/
def standard : Files :=
  ⟨(workingDirectory, .directory) :: rootDirectories.map (fun name => ([name], .directory)) ++
    [(["dev", "null"], .device .null), (["dev", "full"], .device .full),
      (["dev", "stdout"], .device .console), (["dev", "stderr"], .device .messages)]⟩

def find? (f : Files) (place : Place) : Option Node :=
  match f.nodes.lookup place with
  | some node => some node
  | none => if f.nodes.any fun (p, _) => place.isPrefixOf p then some .directory else none

def put (f : Files) (place : Place) (node : Node) : Files :=
  ⟨(place, node) :: f.nodes.filter (·.1 ≠ place)⟩

/-- Follows a name from a directory to a directory. -/
def enter (f : Files) (place : Place) (name : String) : Except FileFault Place := do
  Path.checkName name
  let next := place.child name
  match f.find? next with
  | some .directory => return next
  | some _ => throw .notDirectory
  | none => throw .notFound

def start (p : Path) : Place :=
  if p.fromRoot then [] else workingDirectory

/-- The path of a text, and the directory that its last name belongs to.  There is no path if the
text is just the root. -/
def follow (f : Files) (text : String) : Except FileFault (Option (Path × Place)) :=
  match Path.fault? text with
  | some fault => .error fault
  | none =>
    match Path.ofText? text with
    | none => .ok none
    | some p => do
      return some (p, ← p.way.foldlM f.enter (start p))

/-- The place of a file to be read. -/
def readPlace (f : Files) (text : String) : Except FileFault Place := do
  match ← f.follow text with
  | none => throw .isDirectory
  | some (p, place) =>
    Path.checkName p.last
    let target := place.child p.last
    match f.find? target with
    | some .directory => throw .isDirectory
    | some _ => if p.endsInSlash then throw .notDirectory else return target
    | none => throw .notFound

/-- The place of a file to be made. -/
def createPlace (f : Files) (text : String) : Except FileFault Place := do
  match ← f.follow text with
  | none => throw .isDirectory
  | some (p, place) =>
    if p.endsInSlash then throw .isDirectory
    Path.checkName p.last
    let target := place.child p.last
    if f.find? target = some .directory then throw .isDirectory
    return target

def read (f : Files) (text : String) : Contents := do
  match f.find? (← f.readPlace text) with
  | some (.file bytes) => return bytes
  | _ => return []

/-- Makes the file that a path leads to, or empties it.  Devices stay as they are. -/
def create (f : Files) (text : String) : Except FileFault Files := do
  let place ← f.createPlace text
  match f.find? place with
  | some (.device _) => return f
  | _ => return f.put place (.file [])

/-- Adds a file, with the directories on the way to it. -/
def add (f : Files) (text : String) (bytes : List UInt8) : Files :=
  match Path.ofText? text with
  | none => f
  | some p => f.put ((p.way ++ [p.last]).foldl Place.child (start p)) (.file bytes)

end Files

end Linkage.CommandLine
