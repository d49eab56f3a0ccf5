import LazyGL.Binding.Target
import LazyGL.Writer

/-!
What the artifacts have in common: the notice at the beginning, and the parts of
a declaration that are made from the types of a command.
-/

namespace LazyGL.Binding

def notice : String := "// generated by gl-loader-generator from gl.xml, do not edit."

variable {ε : Type} {m : Type → Type} [Monad m] [Writer ε m]

def emitHeader (lines : List String) : ExceptT ε m Unit := do
  print [notice, "\n"]
  print ["\n".intercalate lines, "\n"]

namespace Signature

def emitParams (s : Signature) : ExceptT ε m Unit :=
  printSeparated ", " (s.params.map fun (param, target) => [param.name, ": ", target.text])

def emitArguments (s : Signature) : ExceptT ε m Unit :=
  printSeparated ", " (s.params.map fun (param, _) => [param.name])

def emitReturn (s : Signature) : ExceptT ε m Unit := do
  if !s.result.isVoid then print [" -> ", s.result.text]

end Signature

end LazyGL.Binding
