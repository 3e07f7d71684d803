import Linkage.Error

/-
# Buffered output

Output goes to a device in blocks.  It comes in pieces that stay whole: pieces are collected as
long as a block has room, and a piece without room makes room by passing the block on.  So a block
is full, or short of full by less than the piece that did not fit, and the last bytes are pending
until they are asked for.  A device may refuse a block, which then stays pending.
-/

namespace Linkage

/-- The blocks that a device took and what is pending.  A device that refuses gives the reason. -/
structure Output where
  refusal : Option String := none
  blocks : Array (Array UInt8) := #[]
  pending : Array UInt8 := #[]

namespace Output

def blockSize : Nat := 8192

/-- Passes the pending bytes on as a block.  `failure` makes an error of the reason for a
refusal. -/
def pass (failure : String → Error) : Action Output Unit := fun o =>
  match o.refusal with
  | some reason => (.error (failure reason), o)
  | none => (.ok (), { o with blocks := o.blocks.push o.pending, pending := #[] })

/-- Passes the pending bytes on, if there are any.  Without any the device is not asked. -/
def flush (failure : String → Error) : Action Output Unit := fun o =>
  if o.pending.isEmpty then (.ok (), o) else pass failure o

def append (piece : List UInt8) (o : Output) : Output :=
  { o with pending := o.pending ++ piece }

/-- Writes a piece.  It stays whole. -/
def put (piece : List UInt8) : Action Output Unit := fun o =>
  if o.pending.size + piece.length ≤ blockSize then (.ok (), o.append piece)
  else
    match pass .output o with
    | (.ok (), o) => (.ok (), o.append piece)
    | refused => refused

/-- All that was written, passed on or pending. -/
def bytes (o : Output) : List UInt8 :=
  o.blocks.toList.flatMap Array.toList ++ o.pending.toList

/-- The output once all bytes are passed on. -/
def close (o : Output) : Except Error Output :=
  (flush .output).exec o

/-- Whether a file meets its device before the last of the blocks.  It keeps one block that is not
full in a room of its own, which is as large as a block; any other makes it ask the device. -/
def asksEarly : (blocks : List (Array UInt8)) → Bool
  | first :: _ :: more => first.size = blockSize || !more.isEmpty
  | _ => false

/-- The error of a file on a device that refuses all blocks. -/
def refused (o : Output) (reason : String) : Error :=
  if asksEarly o.blocks.toList then .output reason else .io reason

end Output

end Linkage
