import LazyGL.Binding.Declaration

/-!
The artifact of the primitive types. It is the same for every registry: names
for the types that the interface is declared with, and the types of its
callbacks.
-/

namespace LazyGL.Binding

namespace Primitive

def aliases : List (String × String) :=
  [("GLbitfield", "c_uint"), ("GLboolean", "c_uchar"), ("GLbyte", "i8"),
    ("GLchar", "c_char"), ("GLcharARB", "c_char"), ("GLclampd", "c_double"),
    ("GLclampf", "c_float"), ("GLclampx", "i32"), ("GLdouble", "c_double"),
    ("GLenum", "c_uint"), ("GLfixed", "i32"), ("GLfloat", "c_float"), ("GLhalf", "u16"),
    ("GLhalfARB", "u16"), ("GLhalfNV", "c_ushort"), ("GLhandleARB", "c_uint"),
    ("GLint", "c_int"), ("GLint64", "i64"), ("GLint64EXT", "i64"), ("GLintptr", "isize"),
    ("GLintptrARB", "isize"), ("GLshort", "c_short"), ("GLsizei", "c_int"),
    ("GLsizeiptr", "isize"), ("GLsizeiptrARB", "isize"), ("GLsync", "*mut c_void"),
    ("GLubyte", "c_uchar"), ("GLuint", "c_uint"), ("GLuint64", "u64"),
    ("GLuint64EXT", "u64"), ("GLushort", "c_ushort"), ("GLvdpauSurfaceNV", "GLintptr"),
    ("GLvoid", "c_void"), ("GLeglClientBufferEXT", "*mut c_void"),
    ("GLeglImageOES", "*mut c_void")]

/-- The types that come from the foreign interface of the target language. -/
def ctypes : List String :=
  ["c_char", "c_double", "c_float", "c_int", "c_short", "c_uchar", "c_uint", "c_ushort",
    "c_void"]

def aliasLine (name type : String) : String :=
  "pub type " ++ name ++ " = " ++ type ++ ";"

def callback (name : String) (params : List (String × String)) : List String :=
  ["pub type " ++ name ++ " = Option<unsafe extern \"system\" fn("] ++
    params.map (fun (param, type) => "    " ++ param ++ ": " ++ type ++ ",") ++ [")>;"]

def messageParams : List (String × String) :=
  [("source", "GLenum"), ("r#type", "GLenum"), ("id", "GLuint"), ("severity", "GLenum"),
    ("length", "GLsizei"), ("message", "*const GLchar"), ("userParam", "*const c_void")]

def olderMessageParams : List (String × String) :=
  [("id", "GLuint"), ("category", "GLenum"), ("severity", "GLenum"), ("length", "GLsizei"),
    ("message", "*const GLchar"), ("userParam", "*mut c_void")]

def declarations : List String :=
  ["use std::ffi::\x7b" ++ ", ".intercalate ctypes ++ "\x7d;",
    ""] ++
  aliases.map (fun (name, type) => aliasLine name type) ++ [""] ++
  callback "GLDEBUGPROC" messageParams ++
  [aliasLine "GLDEBUGPROCARB" "GLDEBUGPROC", aliasLine "GLDEBUGPROCKHR" "GLDEBUGPROC"] ++
  callback "GLDEBUGPROCAMD" olderMessageParams ++
  [aliasLine "GLVULKANPROCNV" "Option<unsafe extern \"system\" fn()>"]

def emit {ε : Type} {m : Type → Type} [Monad m] [Writer ε m] : ExceptT ε m Unit := do
  print [notice, "\n"]
  print ["\n"]
  print ["\n".intercalate declarations, "\n"]

end Primitive

end LazyGL.Binding
