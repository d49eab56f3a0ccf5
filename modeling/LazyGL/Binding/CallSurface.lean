import LazyGL.Binding.Declaration

/-!
The artifact of the call surfaces. Each command has a cell with the address of
its entry point, and three faces: the type of the entry point, a function with
positional arguments, and a structure of named arguments that can be called.
-/

namespace LazyGL.Binding.CallSurface

/-- The lines after the notice: the type of the cells. -/
def boilerplate : List String :=
  ["",
    "use std::ffi::c_void;",
    "use std::sync::atomic::\x7bAtomicPtr, Ordering\x7d;",
    "",
    "use super::types::*;",
    "",
    "/// Entry point of a command. Starts out pointing at the command's resolver, which stores the",
    "/// real address on first call. Racing first calls resolve twice and store the same address.",
    "pub struct FnCell(AtomicPtr<c_void>);",
    "",
    "impl FnCell \x7b",
    "    pub const fn new(ptr: *mut c_void) -> Self \x7b",
    "        Self(AtomicPtr::new(ptr))",
    "    \x7d",
    "",
    "    #[inline]",
    "    pub fn get(&self) -> *mut c_void \x7b",
    "        self.0.load(Ordering::Acquire)",
    "    \x7d",
    "",
    "    #[inline]",
    "    pub fn set(&self, ptr: *mut c_void) \x7b",
    "        self.0.store(ptr, Ordering::Release);",
    "    \x7d",
    "\x7d"]

section

variable {ε : Type} {m : Type → Type} [Monad m] [Writer ε m]

/-- Writes the expression that calls the entry point of a command, as a line
behind a margin. -/
def emitCall (margin name : String) (s : Signature) : ExceptT ε m Unit := do
  print [margin, "unsafe \x7b std::mem::transmute::<*mut c_void, PFN_", name, ">(cell::", name,
    ".get())("]
  s.emitArguments
  print [") \x7d", "\n"]

def emitPointerType (name : String) (s : Signature) : ExceptT ε m Unit := do
  print ["\n", "pub type PFN_", name, " = unsafe extern \"system\" fn("]
  s.emitParams
  print [")"]
  s.emitReturn
  print [";", "\n"]

def emitPositional (name : String) (s : Signature) : ExceptT ε m Unit := do
  print ["\n", "#[inline]", "\n"]
  print ["pub unsafe fn ", name, "("]
  s.emitParams
  print [")"]
  s.emitReturn
  print [" \x7b", "\n"]
  emitCall "    " name s
  print ["\x7d", "\n"]

def emitComment (front : String) : Option String → ExceptT ε m Unit
  | none => return
  | some text => print [front, text, "`.", "\n"]

def emitField (param : Param) (target : Target) : ExceptT ε m Unit := do
  emitComment "    /// Group: `" param.group
  emitComment "    /// Length: `" param.length
  print ["    pub ", param.name, ": ", target.text, ",", "\n"]

def emitFields (name : String) (s : Signature) : ExceptT ε m Unit := do
  print ["\n", "/// Named arguments of [`", name, "`].", "\n"]
  print ["pub struct ", name, "Args \x7b", "\n"]
  s.params.forM fun (param, target) => emitField param target
  print ["\x7d", "\n"]

def emitNamedCall (name : String) (s : Signature) : ExceptT ε m Unit := do
  print ["\n", "impl ", name, "Args \x7b", "\n"]
  print ["    #[inline]", "\n"]
  print ["    pub unsafe fn call(self)"]
  s.emitReturn
  print [" \x7b", "\n"]
  print ["        let Self \x7b "]
  s.emitArguments
  print [" \x7d = self;", "\n"]
  emitCall "        " name s
  print ["    \x7d", "\n"]
  print ["\x7d", "\n"]

def emitSurface [Journal m] (command : Command) : ExceptT ε m Unit := do
  let s := Signature.ofCommand command
  logAll (Signature.log command)
  emitPointerType command.name s
  emitPositional command.name s
  emitFields command.name s
  emitNamedCall command.name s

def cell (command : Command) : String :=
  "    pub static " ++ command.name ++ ": FnCell = FnCell::new(super::super::loaders::" ++
    command.name ++ " as *mut c_void);"

/-- Writes the surfaces of some commands. Their cells are put into a buffer in
memory meanwhile, behind those that are in it. -/
def emitSurfaces [Journal m] (buffer : String) : List Command → ExceptT ε m String
  | [] => return buffer
  | command :: commands => do
    emitSurface command
    emitSurfaces (buffer ++ cell command ++ "\n") commands

def emitCells (buffer : String) : ExceptT ε m Unit := do
  print ["\n", "#[allow(non_upper_case_globals)]", "\n"]
  print ["pub mod cell \x7b", "\n"]
  print ["    use std::ffi::c_void;", "\n", "\n"]
  print ["    use super::FnCell;", "\n", "\n"]
  print [buffer]
  print ["\x7d", "\n"]

def emit [Journal m] (r : Registry) : ExceptT ε m Unit := do
  emitHeader boilerplate
  let buffer ← emitSurfaces "" r.commands
  emitCells buffer

end

end LazyGL.Binding.CallSurface
