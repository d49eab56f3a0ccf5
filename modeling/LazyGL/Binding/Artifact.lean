import LazyGL.Binding.CallSurface
import LazyGL.Binding.Constant
import LazyGL.Binding.Primitive
import LazyGL.Binding.Resolver

/-!
The four artifacts, in the order in which they are written.
-/

namespace LazyGL.Binding

inductive Artifact
  | types
  | constants
  | commands
  | loaders
deriving DecidableEq

namespace Artifact

def all : List Artifact := [.types, .constants, .commands, .loaders]

def fileName : Artifact → String
  | .types => "types.rs"
  | .constants => "constants.rs"
  | .commands => "commands.rs"
  | .loaders => "loaders.rs"

def emit {ε : Type} {m : Type → Type} [Monad m] [Writer ε m] [Journal m] (artifact : Artifact)
    (r : Registry) : ExceptT ε m Unit :=
  match artifact with
  | .types => Primitive.emit
  | .constants => Constant.emit r
  | .commands => CallSurface.emit r
  | .loaders => Resolver.emit r

def page (artifact : Artifact) (r : Registry) : Page :=
  let emission : ExceptT Empty (StateM Page) Unit := artifact.emit r
  (emission.run.run { }).2

def emitWithin (artifact : Artifact) (r : Registry) (room : Nat) :
    Except Sink.Fault Unit × Sink :=
  let emission : ExceptT Sink.Fault (StateM Sink) Unit := artifact.emit r
  emission.run.run { room }

def text (artifact : Artifact) (r : Registry) : String := (artifact.page r).text

def log (artifact : Artifact) (r : Registry) : List Log.Entry := (artifact.page r).entries.reverse

end Artifact

end LazyGL.Binding
