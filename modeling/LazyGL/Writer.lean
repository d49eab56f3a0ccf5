import LazyGL.Log

/-!
Places to which a program writes text piece by piece, with log entries in
between. A piece that a place does not take is a fault, and the program goes on
only where it handles it. A page takes everything; a sink takes a limited number
of bytes.
-/

namespace LazyGL

/-- A place that takes a piece of text as a whole, or fails to. -/
class Writer (ε : outParam Type) (m : Type → Type) where
  write : String → m (Except ε Unit)

class Journal (m : Type → Type) where
  log : Log.Entry → m Unit

section Emission

variable {ε : Type} {m : Type → Type} [Monad m]

def logAll [Journal m] (entries : List Log.Entry) : ExceptT ε m Unit :=
  entries.forM fun entry => ExceptT.lift (Journal.log entry)

variable [Writer ε m]

/-- Writes some pieces one after the other, up to the first that fails. -/
def print (pieces : List String) : ExceptT ε m Unit :=
  pieces.forM fun piece => ExceptT.mk (Writer.write piece)

/-- Writes some items, each of them in pieces, with a separator between them. -/
def printSeparated (separator : String) (items : List (List String)) : ExceptT ε m Unit :=
  items.zipIdx.forM fun (pieces, index) => do
    if 0 < index then print [separator]
    print pieces

end Emission

structure Page where
  text : String := ""
  /-- The log, the last entry first. -/
  entries : List Log.Entry := []

instance : Writer Empty (StateM Page) where
  write piece := fun page => (.ok (), { page with text := page.text ++ piece })

instance : Journal (StateM Page) where
  log entry := fun page => ((), { page with entries := entry :: page.entries })

structure Sink where
  /-- How many bytes it still takes. -/
  room : Nat
  bytes : ByteArray := .empty
  /-- The log, the last entry first. -/
  entries : List Log.Entry := []

inductive Sink.Fault
  | full
deriving DecidableEq

/-- A piece that does not fit goes in as far as there is room. -/
instance : Writer Sink.Fault (StateM Sink) where
  write piece := fun sink =>
    let bytes := piece.toUTF8
    if bytes.size ≤ sink.room then
      (.ok (), { sink with room := sink.room - bytes.size, bytes := sink.bytes ++ bytes })
    else (.error .full, { sink with room := 0, bytes := sink.bytes ++ bytes.extract 0 sink.room })

instance : Journal (StateM Sink) where
  log entry := fun sink => ((), { sink with entries := entry :: sink.entries })

def Sink.log (sink : Sink) : List Log.Entry := sink.entries.reverse

end LazyGL
