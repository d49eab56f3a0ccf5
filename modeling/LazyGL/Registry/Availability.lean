import LazyGL.Numeral
import LazyGL.Text.Front
import LazyGL.Text.Quoted

/-!
Where a command is available: versions of an interface family that add or
remove it, and extensions. A version tag is written as a sign, the mark of the
family and the two numbers of the version, as in `+ES2.0`.
-/

namespace LazyGL

structure Version where
  major : UInt32
  minor : UInt32
deriving DecidableEq

inductive VersionFault
  | missingMinor
  | number (fault : Numeral.Fault)
  | unexpectedPart (text : String)
deriving DecidableEq

def VersionFault.message : VersionFault → String
  | .missingMinor => "missing minor"
  | .number fault => fault.message
  | .unexpectedPart text => "unexpected version part in " ++ Quoted.quote text

def Version.readPart (part : List Char) : Except VersionFault UInt32 :=
  match Numeral.readUnsigned 10 UInt32.size part with
  | .ok n => .ok (UInt32.ofNat n)
  | .error fault => .error (.number fault)

/-- Reads a version; the parts are looked at from left to right. -/
def Version.ofString (text : String) : Except VersionFault Version :=
  match text.toList.splitOn '.' with
  | [] => .error .missingMinor
  | first :: rest => do
    let major ← readPart first
    match rest with
    | [] => .error .missingMinor
    | second :: others =>
      let minor ← readPart second
      if others.isEmpty then .ok ⟨major, minor⟩ else .error (.unexpectedPart text)

def Version.text (version : Version) : String :=
  toString version.major.toNat ++ "." ++ toString version.minor.toNat

/-- The families of the interface: the full one, the one for embedded systems
and the one for safety-critical systems. -/
inductive ApiFamily
  | core
  | es
  | sc
deriving DecidableEq

def ApiFamily.mark : ApiFamily → String
  | .core => ""
  | .es => "ES"
  | .sc => "SC"

def ApiFamily.ofName? (name : String) : Option ApiFamily :=
  if name = "gl" ∨ name = "glcore" then some .core
  else if "gles".toList.isPrefixOf name.toList then some .es
  else if "glsc".toList.isPrefixOf name.toList then some .sc
  else none

def ApiFamily.unknownMessage (name : String) : String :=
  "unknown feature api: " ++ Quoted.quote name

inductive Change
  | added
  | removed
deriving DecidableEq

def Change.sign : Change → String
  | .added => "+"
  | .removed => "-"

structure VersionTag where
  change : Change
  family : ApiFamily
  version : Version
deriving DecidableEq

def VersionTag.text (tag : VersionTag) : String :=
  tag.change.sign ++ tag.family.mark ++ tag.version.text

def VersionTag.added (family : ApiFamily) (major minor : UInt32) : VersionTag :=
  ⟨.added, family, ⟨major, minor⟩⟩

structure ExtensionTag where
  name : String
deriving DecidableEq

/-- The tag of an extension: its full name with `GL_` taken off the front once. -/
def ExtensionTag.ofName (name : String) : ExtensionTag :=
  match afterFront? "GL_".toList name.toList with
  | some rest => ⟨String.ofList rest⟩
  | none => ⟨name⟩

end LazyGL
