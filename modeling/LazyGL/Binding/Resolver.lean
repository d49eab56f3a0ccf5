import LazyGL.Binding.Declaration

/-!
The artifact of the resolvers. Each command has a function that finds the entry
point, given the tags of the versions and extensions that may have it, stores
it in the cell of the command and passes the call on. The tags stand in one
table, and a resolver names them by their places.
-/

namespace LazyGL.Binding.Resolver

def boilerplate : List String :=
  ["",
    "use std::ffi::\x7bCStr, c_void\x7d;",
    "",
    "use super::commands::\x7bself, cell\x7d;",
    "use super::types::*;",
    "",
    "#[cold]",
    "#[inline(never)]",
    "fn unresolved_symbol_panic(name: &CStr) -> ! \x7b",
    "    panic!(\"could not resolve \x7bname:?\x7d\")",
    "\x7d",
    "",
    "#[inline]",
    "fn resolve(name: &CStr, candidates: &[&CStr]) -> *mut c_void \x7b",
    "    match super::resolve_symbol(name, candidates) \x7b",
    "        Some(ptr) => ptr.as_ptr(),",
    "        None => unresolved_symbol_panic(name),",
    "    \x7d",
    "\x7d"]

/-- Leaves one of each run of equal texts. -/
def dropRepeats : List String → List String
  | [] => []
  | [text] => [text]
  | first :: second :: rest =>
    if first = second then dropRepeats (second :: rest)
    else first :: dropRepeats (second :: rest)

/-- The distinct tags of all commands, in ascending order. -/
def tagTable (r : Registry) : List String :=
  let tags := r.commands.flatMap fun command => r.candidateTags command.name
  dropRepeats (tags.mergeSort fun a b => a ≤ b)

def ungatedLog (candidates : List String) (command : Command) : List Log.Entry :=
  if candidates.isEmpty then
    [⟨.debug, command.name ++ " is not part of any feature or extension"⟩]
  else []

section

variable {ε : Type} {m : Type → Type} [Monad m] [Writer ε m]

def emitTable (table : List String) : ExceptT ε m Unit := do
  print ["\n", "static TAGS: [&CStr; ", toString table.length, "] = [", "\n"]
  table.forM fun tag => print ["    c\"", tag, "\",", "\n"]
  print ["];", "\n"]

def emitResolver [Journal m] (r : Registry) (table : List String) (command : Command) :
    ExceptT ε m Unit := do
  let name := command.name
  let s := Signature.ofCommand command
  logAll (Signature.log command)
  let candidates := r.candidateTags name
  logAll (ungatedLog candidates command)
  print ["\n", "pub unsafe extern \"system\" fn ", name, "("]
  s.emitParams
  print [")"]
  s.emitReturn
  print [" \x7b", "\n"]
  print ["    self::cell::", name, ".set(self::resolve(c\"", name, "\", &["]
  printSeparated ", "
    (candidates.map fun tag => ["self::TAGS[", toString (table.idxOf tag), "]"])
  print ["]));", "\n"]
  print ["    unsafe \x7b std::mem::transmute::<*mut c_void, commands::PFN_", name,
    ">(self::cell::", name, ".get())("]
  s.emitArguments
  print [") \x7d", "\n"]
  print ["\x7d", "\n"]

def emit [Journal m] (r : Registry) : ExceptT ε m Unit := do
  let table := tagTable r
  emitHeader boilerplate
  emitTable table
  r.commands.forM (emitResolver r table)

end

end LazyGL.Binding.Resolver
