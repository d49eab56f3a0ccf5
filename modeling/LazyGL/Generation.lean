import LazyGL.Reading.Document
import LazyGL.Registry.Normal
import LazyGL.Storage.Buffer
import LazyGL.Workspace

/-!
Generation: the registry of a workspace is read, brought to normal form and
checked for its size, and then its artifacts are written one after the other.
Nothing is written unless the registry passes.
-/

namespace LazyGL

inductive Failure
  | unopened (path : Path) (fault : FileFault)
  | unreadable (path : Path) (fault : FileFault)
  | unparsed (path : Path) (fault : Reading.DocumentFault)
  | truncated (shortfalls : List Shortfall)
  | uncreated (path : Path) (fault : FileFault)
  | unwritten (path : Path) (fault : FileFault)
  /-- The rest of a text did not come to its file. -/
  | unflushed (fault : FileFault)
deriving DecidableEq

def Failure.chain : Failure → List String
  | .unopened path fault => ["could not open " ++ path.text, fault.message]
  | .unreadable path fault =>
      ["could not parse " ++ path.text, "malformed document near byte 0",
        "I/O error: " ++ fault.message, fault.message]
  | .unparsed path fault => ("could not parse " ++ path.text) :: fault.chain
  | .truncated shortfalls => [Shortfall.message shortfalls]
  | .uncreated path fault => ["could not create " ++ path.text, fault.message]
  | .unwritten path fault => ["could not write " ++ path.text, fault.message]
  | .unflushed fault => [fault.message]

namespace Generation

variable {m : Type → Type} [Monad m] [Files m] [Journal m]

def orFail {α ε : Type} (failure : ε → Failure) (operation : m (Except ε α)) :
    ExceptT Failure m α :=
  ExceptT.mk (do return (← operation).mapError failure)

def parsedEntry (r : Registry) : Log.Entry :=
  ⟨.debug, "parsed " ++ toString r.groups.size ++ " groups, " ++ toString r.enums.length ++
    " enums, " ++ toString r.bitfields.length ++ " bitfields, " ++
    toString r.commands.length ++ " commands"⟩

def loadFailure (path : Path) : LoadFault → Failure
  | .unopened fault => .unopened path fault
  | .unreadable fault => .unreadable path fault

def loadRegistry (path : Path) : ExceptT Failure m Registry := do
  let content ← orFail (loadFailure path) (Files.load path)
  match Registry.ofDocument content.data.toList with
  | .error fault => throw (.unparsed path fault)
  | .ok r =>
    logAll (parsedEntry r :: r.normalizeLog)
    return r.normalize

def checkSize (r : Registry) (minima : Census) : ExceptT Failure m Unit := do
  let shortfalls := r.shortfalls minima
  if shortfalls.isEmpty then logAll r.censusLog else throw (.truncated shortfalls)

def writeArtifact (w : Workspace) (r : Registry) (artifact : Binding.Artifact) :
    ExceptT Failure m Unit := do
  let path := w.artifactPath artifact
  orFail (.uncreated path) (Files.create path)
  Buffered.toFile path do
    orFail (.unwritten path) (artifact.emit r).run
    orFail .unflushed Buffered.flush.run
  logAll [⟨.info, "wrote " ++ path.text⟩]

def generate (w : Workspace) : ExceptT Failure m Unit := do
  let r ← loadRegistry w.registry
  checkSize r w.minima
  orFail (.uncreated w.output) (Files.makeDirectories w.output)
  Binding.Artifact.all.forM (writeArtifact w r)

end Generation

end LazyGL
