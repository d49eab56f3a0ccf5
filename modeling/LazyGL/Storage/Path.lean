/-!
Paths as texts, and the names that they consist of.
-/

namespace LazyGL

structure Path where
  text : String
deriving DecidableEq

namespace Path

def longestName : Nat := 255

/-- The number of bytes that a path has to stay below. -/
def sizeBound : Nat := 4096

/-- A path below another one. An absolute path stands for itself. -/
def join (base : Path) (below : String) : Path :=
  let chars := base.text.toList
  if below.toList.head? = some '/' then ⟨below⟩
  else if chars.isEmpty || chars.getLast? == some '/' then ⟨base.text ++ below⟩
  else ⟨base.text ++ "/" ++ below⟩

/-- The names of a path in order, without those that stay where they are. -/
def names (path : Path) : List String :=
  ((path.text.toList.splitOn '/').map String.ofList).filter fun name => name ≠ "" ∧ name ≠ "."

end Path

end LazyGL
