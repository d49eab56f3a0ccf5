import LazyGL.Host

/-!
Buffered files. Text for a file is collected in a buffer, so that it comes to the
file in large portions. A portion that does not come to the file stays in the
buffer, and the next attempt begins with it.
-/

namespace LazyGL

/-- A file and the text for it that is still to come to it. -/
structure Buffer where
  path : Path
  pending : String := ""

def Buffer.capacity : Nat := 8192

abbrev Buffered (m : Type → Type) := StateT Buffer m

namespace Buffered

variable {m : Type → Type} [Monad m]

instance [Journal m] : Journal (Buffered m) where
  log entry := StateT.lift (Journal.log entry)

variable [Files m]

/-- Adds a text to the file, past the buffer. -/
def send (text : String) : ExceptT FileFault (Buffered m) Unit := do
  let buffer ← get
  ExceptT.mk (StateT.lift (Files.append buffer.path text.toUTF8))

def flush : ExceptT FileFault (Buffered m) Unit := do
  let buffer ← get
  if buffer.pending = "" then return
  else
    send buffer.pending
    set { buffer with pending := "" }

def makeRoom (piece : String) : ExceptT FileFault (Buffered m) Unit := do
  let buffer ← get
  if buffer.pending.utf8ByteSize + piece.utf8ByteSize ≤ Buffer.capacity then return
  else flush

/-- Writes a piece to the buffer. One that is as large as the buffer goes past
it. -/
def put (piece : String) : ExceptT FileFault (Buffered m) Unit := do
  makeRoom piece
  let buffer ← get
  if Buffer.capacity ≤ piece.utf8ByteSize then send piece
  else set { buffer with pending := buffer.pending ++ piece }

instance : Writer FileFault (Buffered m) where
  write piece := put piece

/-- Writes to a file. Whatever the end, what is pending then is brought to the
file, and a fault of that is lost. -/
def toFile {ε α : Type} (path : Path) (x : ExceptT ε (Buffered m) α) : ExceptT ε m α :=
  ExceptT.mk do
    let (result, buffer) ← x.run.run { path }
    discard (flush.run.run buffer)
    return result

end Buffered

end LazyGL
