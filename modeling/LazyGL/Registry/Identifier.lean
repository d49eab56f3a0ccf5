/-!
Parameter names that the target language reserves. Most of them are usable
behind a mark; a few are reserved even so and get another name.
-/

namespace LazyGL.Identifier

def reserved : List String :=
  ["abstract", "as", "async", "await", "become", "box", "break", "const", "continue",
    "crate", "do", "dyn", "else", "enum", "extern", "false", "final", "fn", "for", "gen",
    "if", "impl", "in", "let", "loop", "macro", "match", "mod", "move", "mut", "override",
    "priv", "pub", "ref", "return", "self", "Self", "static", "struct", "super", "trait",
    "true", "try", "type", "typeof", "unsafe", "unsized", "use", "virtual", "where",
    "while", "yield", "_"]

/-- The reserved words that the mark does not free. -/
def unmarkable : List String :=
  ["self", "Self", "super", "crate", "_"]

/-- What to write for a reserved name; none for a name that is usable as it is. -/
def substitute? (name : String) : Option String :=
  if name ∈ unmarkable then some (name ++ "_")
  else if name ∈ reserved then some ("r#" ++ name)
  else none

def usable (name : String) : String :=
  (substitute? name).getD name

end LazyGL.Identifier
