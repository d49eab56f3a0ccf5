import LazyGL.Storage.Disk
import LazyGL.Writer

/-!
What a run needs from its surroundings: operations on files, a log, and lines
for the user. A session answers all of them in pure code, from a disk and the
lines and entries so far.
-/

namespace LazyGL

inductive LoadFault
  | unopened (fault : FileFault)
  | unreadable (fault : FileFault)
deriving DecidableEq

class Files (m : Type → Type) where
  /-- The content of a file. -/
  load : Path → m (Except LoadFault ByteArray)
  /-- Makes a directory and those above it, unless they are there. -/
  makeDirectories : Path → m (Except FileFault Unit)
  /-- Makes an empty file, or empties the one that is there. -/
  create : Path → m (Except FileFault Unit)
  /-- Adds bytes to the end of a file. -/
  append : Path → ByteArray → m (Except FileFault Unit)

class Console (m : Type → Type) where
  complain : String → m Unit

structure Session where
  disk : Disk
  /-- The log, the last entry first. -/
  entries : List Log.Entry := []
  /-- The lines to the user, the last one first. -/
  lines : List String := []

namespace Session

/-- Runs a change of the disk, which stays as it is on a fault. -/
def changeDisk (change : Disk → Except FileFault Disk) :
    StateM Session (Except FileFault Unit) := fun s =>
  match change s.disk with
  | .ok disk => (.ok (), { s with disk := disk })
  | .error fault => (.error fault, s)

/-- The content of a file on a disk; a directory can be opened but not read. -/
def loadFrom (disk : Disk) (path : Path) : Except LoadFault ByteArray :=
  match disk.locate path with
  | .error fault => .error (.unopened fault)
  | .ok place =>
    match disk.node? place with
    | none => .error (.unopened .notFound)
    | some .directory => .error (.unreadable .isDirectory)
    | some (.file content) => .ok content

instance : Files (StateM Session) where
  load path := fun s => (loadFrom s.disk path, s)
  makeDirectories path := changeDisk fun disk => disk.makeDirectories path
  create path := changeDisk fun disk => disk.create path
  append path bytes := changeDisk fun disk => disk.append path bytes

instance : Journal (StateM Session) where
  log entry := fun s => ((), { s with entries := entry :: s.entries })

instance : Console (StateM Session) where
  complain line := fun s => ((), { s with lines := line :: s.lines })

end Session

/-- A run whose log is shown to the user through a filter. -/
abbrev Filtered (m : Type → Type) := ReaderT Log.Filter m

instance {m : Type → Type} [Files m] : Files (Filtered m) where
  load path := fun _ => Files.load path
  makeDirectories path := fun _ => Files.makeDirectories path
  create path := fun _ => Files.create path
  append path bytes := fun _ => Files.append path bytes

instance {m : Type → Type} [Monad m] [Console m] : Journal (Filtered m) where
  log entry := fun filter =>
    if filter.admits entry.level then Console.complain entry.line else pure ()

end LazyGL
