import LazyGL.Binding.Declaration
import LazyGL.Registry.Basic
import LazyGL.Registry.Literal

/-!
The artifact of the constants: one constant for each value of the registry, of
a type 32 bits wide, and one module for each group, which exports the constants
of its members. A value that needs more than 32 bits is cut down, with a
warning.
-/

namespace LazyGL.Binding

inductive CastWidth
  | bits32
  | bits64
deriving DecidableEq

def CastWidth.suffix : CastWidth → String
  | .bits32 => "_u32"
  | .bits64 => "_u64"

/-- What a constant is set to: a literal, or a wider or unsigned one that is
cast to the type of the constant. -/
structure Initializer where
  literal : String
  cast : Option CastWidth
deriving DecidableEq

namespace Initializer

def text (type : String) (initializer : Initializer) : String :=
  match initializer.cast with
  | none => initializer.literal
  | some width => initializer.literal ++ width.suffix ++ " as " ++ type

/-- The initializer of a plain value. A negative one is given by its lower 32
bits, and one above the greatest signed number by all its bits. -/
def ofPlain (literal : String) : Initializer :=
  match Literal.value? literal with
  | none => ⟨literal, none⟩
  | some value =>
    let n := value.toInt
    if n < 0 then
      let bits := (n % 0x100000000).toNat
      ⟨"0x" ++ String.ofList (Numeral.padZeros 8 (Numeral.hex bits)), some .bits32⟩
    else if n < 0x80000000 then ⟨literal, none⟩
    else if n < 0x100000000 then ⟨literal, some .bits32⟩
    else ⟨literal, some .bits64⟩

def ofMask (literal : String) : Initializer :=
  match Literal.value? literal with
  | none => ⟨literal, none⟩
  | some value =>
    let n := value.toInt
    if 0 ≤ n ∧ n < 0x100000000 then ⟨literal, none⟩ else ⟨literal, some .bits64⟩

def isTruncated (initializer : Initializer) : Bool :=
  initializer.cast == some .bits64

end Initializer

namespace Constant

def typeOf : ValueKind → String
  | .plain => "GLint"
  | .bitmask => "GLbitfield"

def initializer (kind : ValueKind) (literal : String) : Initializer :=
  match kind with
  | .plain => .ofPlain literal
  | .bitmask => .ofMask literal

def truncation (e : Enumerant) : Log.Entry :=
  ⟨.warn, e.name ++ " = " ++ e.value ++ " does not fit in 32 bits, truncating"⟩

variable {ε : Type} {m : Type → Type} [Monad m] [Writer ε m]

def emitConstant [Journal m] (kind : ValueKind) (e : Enumerant) : ExceptT ε m Unit := do
  let value := initializer kind e.value
  if value.isTruncated then logAll [truncation e]
  print ["pub const ", e.name, ": " ++ typeOf kind ++ " = ", value.text (typeOf kind), ";", "\n"]

def emitGroup (group : String) (members : List String) : ExceptT ε m Unit := do
  print ["    pub mod ", group, " \x7b", "\n"]
  print ["        pub use super::super::\x7b"]
  printSeparated ", " (members.map fun member => [member])
  print ["\x7d;", "\n"]
  print ["    \x7d", "\n"]

def emit [Journal m] (r : Registry) : ExceptT ε m Unit := do
  print [notice, "\n"]
  print ["\n", "use super::types::*;", "\n", "\n"]
  r.enums.forM (emitConstant .plain)
  print ["\n"]
  r.bitfields.forM (emitConstant .bitmask)
  print ["\n"]
  print ["#[allow(non_snake_case)]", "\n"]
  print ["pub mod groups \x7b", "\n"]
  r.groups.entries.forM fun (group, members) => emitGroup group members.toList
  print ["\x7d", "\n"]

end Constant

end LazyGL.Binding
