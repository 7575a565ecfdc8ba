/-!
# Writers

Where a report goes. Behind a writer there is a device that takes a number of bytes in all, or any
number of them. When it is full it takes the part of a write that still fits and fails. A buffered
writer holds bytes back until there are too many of them or it is flushed, so that it may also fail
on bytes of an earlier write.
-/
namespace ManifestDiff

structure Writer where
  accepted : ByteArray
  /-- The number of bytes that still fit on the device, if it is bounded. -/
  room : Option Nat
  refusal : String
  /-- The number of bytes that are held back at most. -/
  capacity : Nat := 0
  held : ByteArray := .empty

namespace Writer

def unbounded : Writer := { accepted := .empty, room := none, refusal := "" }

def bounded (room : Nat) (refusal : String) : Writer :=
  { accepted := .empty, room := some room, refusal }

def buffered (writer : Writer) (capacity : Nat) : Writer := { writer with capacity }

def fitting (writer : Writer) (bytes : ByteArray) : ByteArray :=
  match writer.room with
  | none => bytes
  | some room => bytes.extract 0 room

/-- Hands bytes to the device and tells whether it took all of them. -/
def pass (writer : Writer) (bytes : ByteArray) : Writer × Bool :=
  let taken := writer.fitting bytes
  ({ writer with
      accepted := writer.accepted ++ taken
      room := writer.room.map (· - taken.size) }, taken.size == bytes.size)

def hold (writer : Writer) (bytes : ByteArray) : Writer :=
  { writer with held := writer.held ++ bytes }

/-- Hands on what is held back. What the device does not take is still held back. -/
def flush (writer : Writer) : Writer × Bool :=
  let (next, complete) := writer.pass writer.held
  let taken := writer.fitting writer.held
  ({ next with held := writer.held.extract taken.size writer.held.size }, complete)

/-- Bytes are held back behind the others if there is space for them. Else the others go first, and
the bytes go to the device, too, when they would fill the space on their own. -/
def write (writer : Writer) (bytes : ByteArray) : Writer × Bool :=
  if writer.held.size + bytes.size ≤ writer.capacity && bytes.size < writer.capacity then
    (writer.hold bytes, true)
  else
    match writer.flush with
    | (writer, false) => (writer, false)
    | (writer, true) =>
      if bytes.size < writer.capacity then (writer.hold bytes, true) else writer.pass bytes

end Writer

/-- What failed when an event was not written: a plain write, or a write while JSON was encoded. -/
inductive OutputFault where
  | io
  | serialization
deriving DecidableEq, Repr

def OutputFault.message (cause : String) : OutputFault → String
  | .io => "io error: " ++ cause
  | .serialization => "serialization error: " ++ cause

abbrev Writing := ExceptT OutputFault (StateM Writer)

namespace Writing

def put (fault : OutputFault) (text : String) : Writing Unit := do
  let (writer, complete) := (← get).write text.toUTF8
  set writer
  unless complete do throw fault

/-- The parts of a line are written one by one, and then its end. -/
def line (parts : List String) : Writing Unit := do
  parts.forM (put .io)
  put .io "\n"

def on (program : Writing Unit) (writer : Writer) : Writer × Option OutputFault :=
  match program.run.run writer with
  | (.ok (), writer) => (writer, none)
  | (.error fault, writer) => (writer, some fault)

end Writing
end ManifestDiff
