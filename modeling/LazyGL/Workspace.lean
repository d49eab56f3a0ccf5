import LazyGL.Binding.Artifact
import LazyGL.Registry.Census
import LazyGL.Storage.Path

/-!
Workspaces: where the registry of one root directory is, where its artifacts
go, and how large the registry has to be.
-/

namespace LazyGL

structure Workspace where
  registry : Path
  output : Path
  minima : Census
deriving DecidableEq

namespace Workspace

def ofRoot (root : Path) : Workspace :=
  { registry := root.join "gl.xml"
    output := root.join "generated"
    minima := .standard }

def artifactPath (w : Workspace) (artifact : Binding.Artifact) : Path :=
  w.output.join artifact.fileName

end Workspace

end LazyGL
