/-
# Files

A file is a list of bytes, and the texts in it are encoded in UTF-8.  The bytes of a file may not be
had, and there may be no room to put them.  The wordings of such faults are those of the operating
system.
-/

namespace Linkage

namespace Text

def utf8 (s : String) : List UInt8 :=
  s.toUTF8.data.toList

/-- The text that some bytes encode. -/
def ofUtf8? (bytes : List UInt8) : Option String :=
  String.fromUTF8? ⟨bytes.toArray⟩

/-- The byte of an ASCII character. -/
def ascii? (c : Char) : Option UInt8 :=
  if c.val < 128 then some c.val.toUInt8 else none

end Text

/-- Why a file cannot be used. -/
inductive FileFault where
  | notFound
  | notDirectory
  | isDirectory
  | nameTooLong
  | nulInName
  | noSpace
  | other (reason : String)
  deriving DecidableEq, Repr

namespace FileFault

def message : FileFault → String
  | notFound => "No such file or directory (os error 2)"
  | notDirectory => "Not a directory (os error 20)"
  | isDirectory => "Is a directory (os error 21)"
  | nameTooLong => "File name too long (os error 36)"
  | nulInName => "file name contained an unexpected NUL byte"
  | noSpace => "No space left on device (os error 28)"
  | other reason => reason

end FileFault

/-- What a path leads to: the bytes of a file, or why there are none. -/
abbrev Contents := Except FileFault (List UInt8)

end Linkage
