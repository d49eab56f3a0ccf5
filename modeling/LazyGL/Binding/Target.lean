import LazyGL.Log
import LazyGL.Registry.Basic
import LazyGL.Text.Quoted

/-!
Target types: what the spelling of a parameter or of a return type becomes in
the target language. A parameter whose shape fits no rule is taken for a
pointer, and a warning is logged.
-/

namespace LazyGL.Binding

inductive Mutability
  | const
  | mutable
deriving DecidableEq

def Mutability.text : Mutability → String
  | .const => "*const"
  | .mutable => "*mut"

inductive Pointee
  /-- Memory of no known type. -/
  | bytes
  | base (name : String)
deriving DecidableEq

def Pointee.text : Pointee → String
  | .bytes => "std::ffi::c_void"
  | .base name => name

def Pointee.ofBase (base : String) : Pointee :=
  if base = "void" then .bytes else .base base

inductive Target
  | void
  | value (base : String)
  /-- A pointer to a structure that is not declared. -/
  | opaqueHandle
  | pointer (mutability : Mutability) (pointee : Pointee)
  | pointerToPointer (outer inner : Mutability) (pointee : Pointee)
  /-- A shape that no rule covers, taken for a pointer. -/
  | unverified (pointee : Pointee)
deriving DecidableEq

namespace Target

def text : Target → String
  | .void => "()"
  | .value base => base
  | .opaqueHandle => "*mut std::ffi::c_void"
  | .pointer mutability pointee => mutability.text ++ " " ++ pointee.text
  | .pointerToPointer outer inner pointee =>
      outer.text ++ " " ++ inner.text ++ " " ++ pointee.text
  | .unverified pointee => "*mut " ++ pointee.text

def isVoid : Target → Bool
  | .void => true
  | _ => false

def isUnverified : Target → Bool
  | .unverified _ => true
  | _ => false

/-- The structures that are only ever passed by pointer. -/
def handleTags : List String := ["_cl_context", "_cl_event"]

/-- Splits a shape at the first question mark with a bracket after it, after
the characters `read` (the last one first). -/
def splitAtDimension (read : List Char) : List Char → Option (List Char × List Char)
  | [] => none
  | '?' :: '[' :: rest => some (read.reverse, rest)
  | c :: rest => splitAtDimension (c :: read) rest

/-- The mutability of an array parameter, which decays to a pointer. -/
def arrayMutability? (shape : String) : Option Mutability :=
  match splitAtDimension [] shape.toList with
  | none => none
  | some (before, after) =>
    if after.getLast? = some ']' then
      if before = "!".toList then some .mutable
      else if before = "const!".toList then some .const
      else none
    else none

/-- The type for the shape of a parameter without regard to special bases. -/
def ofShape (base shape : String) : Target :=
  match shape with
  | "!?" => .value base
  | "!*?" => .pointer .mutable (.ofBase base)
  | "const!*?" => .pointer .const (.ofBase base)
  | "!**?" => .pointerToPointer .mutable .mutable (.ofBase base)
  | "const!**?" => .pointerToPointer .mutable .const (.ofBase base)
  | "!*const*?" => .pointerToPointer .const .mutable (.ofBase base)
  | "const!*const*?" => .pointerToPointer .const .const (.ofBase base)
  | _ =>
    match arrayMutability? shape with
    | some mutability => .pointer mutability (.ofBase base)
    | none => .unverified (.ofBase base)

def ofVoidShape? (shape : String) : Option Target :=
  match shape with
  | "?" => some .void
  | "void*?" => some (.pointer .mutable .bytes)
  | "constvoid*?" => some (.pointer .const .bytes)
  | "void**?" => some (.pointerToPointer .mutable .mutable .bytes)
  | "constvoid**?" => some (.pointerToPointer .mutable .const .bytes)
  | "void*const*?" => some (.pointerToPointer .const .mutable .bytes)
  | "constvoid*const*?" => some (.pointerToPointer .const .const .bytes)
  | _ => none

def ofParam (base shape : String) : Target :=
  if base = "void" then (ofVoidShape? shape).getD (ofShape base shape)
  else if base ∈ handleTags then .opaqueHandle
  else ofShape base shape

def paramLog (base shape : String) : List Log.Entry :=
  let target := ofParam base shape
  if target.isUnverified then
    [⟨.warn, "no rule for parameter shape " ++ Quoted.quote shape ++ " of " ++ base ++
      ", using " ++ target.text⟩]
  else []

def ofReturn (returnType : String) : Target :=
  match returnType with
  | "void" => .void
  | "" => .void
  | "void *" => .pointer .mutable .bytes
  | "const GLubyte *" => .pointer .const (.base "GLubyte")
  | other => .value other

end Target

structure Signature where
  params : List (Param × Target)
  result : Target
deriving DecidableEq

namespace Signature

def ofCommand (command : Command) : Signature :=
  { params := command.params.map fun param => (param, .ofParam param.base param.shape)
    result := .ofReturn command.returnType }

def log (command : Command) : List Log.Entry :=
  command.params.flatMap fun param => Target.paramLog param.base param.shape

end Signature

end LazyGL.Binding
