import LazyGL.Registry.Availability

/-!
Scopes: what an element is about is decided by the local names on the path from
the root element down to it. An element off the known paths is ignored, and so
is all below it.
-/

namespace LazyGL.Reading

inductive Scope
  /-- Outside the root elements. -/
  | document
  /-- A root element, whatever its name. -/
  | root
  | groups
  | group
  | groupMember
  | enumBlock
  | enumEntry
  | extensions
  | extension
  | extensionRequire
  | extensionCommand
  | feature
  | featureList (change : Change)
  | featureCommand (change : Change)
  | commands
  | command
  | proto
  | protoType
  | protoName
  | param
  | paramType
  | paramName
  | ignored
deriving DecidableEq

def Scope.child : Scope → String → Scope
  | .document, _ => .root
  | .root, "groups" => .groups
  | .groups, "group" => .group
  | .group, "enum" => .groupMember
  | .root, "enums" => .enumBlock
  | .enumBlock, "enum" => .enumEntry
  | .root, "extensions" => .extensions
  | .extensions, "extension" => .extension
  | .extension, "require" => .extensionRequire
  | .extensionRequire, "command" => .extensionCommand
  | .root, "feature" => .feature
  | .feature, "require" => .featureList .added
  | .feature, "remove" => .featureList .removed
  | .featureList change, "command" => .featureCommand change
  | .root, "commands" => .commands
  | .commands, "command" => .command
  | .command, "proto" => .proto
  | .proto, "ptype" => .protoType
  | .proto, "name" => .protoName
  | .command, "param" => .param
  | .param, "ptype" => .paramType
  | .param, "name" => .paramName
  | _, _ => .ignored

end LazyGL.Reading
