import LazyGL.Reading.Document
import LazyGL.Registry.Normal

/-!
Documents as trees. A node is a complete element or one of the other pieces of
a document, and a document is a list of nodes. Its meaning is given here by
recursion on the trees: the function for an element is chosen by the path of
local names down to it, what an element passes on to those inside it is an
argument, and what an element is worth to the one around it is a result. There
is no stack of scopes, and nothing is pending between two pieces.
-/

namespace LazyGL.Reading

inductive Node
  /-- An element with its two tags; the end tag is given by what stands after
  its slash. -/
  | element (tag : Markup.Tag) (children : List Node) (ending : Bytes)
  /-- A self-closed element. -/
  | closed (tag : Markup.Tag)
  | text (raw : Bytes)
  | cdata (raw : Bytes)
  | comment (body : Bytes)
  | instruction (body : Bytes)
  | doctype (body : Bytes)

/-! ### The events of a document -/

mutual

def Node.events : Node → List Markup.Event
  | .element tag children ending => .start tag :: (eventsOf children ++ [.stop ending])
  | .closed tag => [.empty tag]
  | .text raw => [.text raw]
  | .cdata raw => [.cdata raw]
  | .comment body => [.comment body]
  | .instruction body => [.instruction body]
  | .doctype body => [.doctype body]

def eventsOf : List Node → List Markup.Event
  | [] => []
  | node :: rest => node.events ++ eventsOf rest

end

/-! ### Texts -/

def escaped (raw : Bytes) : Except Fault String :=
  (Markup.meaning raw).mapError .text

def verbatim (raw : Bytes) : Except Fault String :=
  ((Utf8.decode raw).map String.ofList).mapError .verbatim

mutual

/-- Reads a node without meaning; its texts must have a meaning even so. -/
def Node.skip : Node → Except Fault Unit
  | .element _ children _ => skipAll children
  | .closed _ => .ok ()
  | .text raw => (escaped raw).map fun _ => ()
  | .cdata raw => (verbatim raw).map fun _ => ()
  | .comment _ => .ok ()
  | .instruction _ => .ok ()
  | .doctype _ => .ok ()

def skipAll : List Node → Except Fault Unit
  | [] => .ok ()
  | node :: rest => do
    node.skip
    skipAll rest

end

/-- How an element changes what has been read, given its tag and its
children. -/
abbrev Visit (α : Type) := α → Markup.Tag → List Node → Except Fault α

def ignored {α : Type} : Visit α := fun a _ children => do
  skipAll children
  return a

def unheard {α : Type} : α → String → α := fun a _ => a

def Node.fold {α : Type} (hear : α → String → α) (visit : Visit α) (a : α) :
    Node → Except Fault α
  | .element tag children _ => visit a tag children
  | .closed tag => visit a tag []
  | .text raw => (escaped raw).map (hear a)
  | .cdata raw => (verbatim raw).map (hear a)
  | .comment _ => .ok a
  | .instruction _ => .ok a
  | .doctype _ => .ok a

def inside {α : Type} (hear : α → String → α) (visit : Visit α) (a : α)
    (children : List Node) : Except Fault α :=
  children.foldlM (Node.fold hear visit) a

def only {α : Type} (name : String) (visit : Visit α) : Visit α := fun a tag children =>
  if tag.localName = name then visit a tag children else ignored a tag children

def directText (children : List Node) : Except Fault String :=
  inside (· ++ ·) ignored "" children

/-! ### Commands -/

def readProto (command : Command) (children : List Node) : Except Fault Command :=
  inside (fun c text => { c with returnType := c.returnType ++ text })
    (fun c tag children =>
      match tag.localName with
      | "ptype" => do
        let text ← directText children
        return { c with returnType := c.returnType ++ text }
      | "name" => do
        let text ← directText children
        return { c with name := c.name ++ text }
      | _ => ignored c tag children)
    command children

/-- Reads the declaration of a parameter. Where no type is named, it is
`void`. -/
def readParam (tag : Markup.Tag) (children : List Node) : Except Fault Param := do
  let group ← attribute? tag "group"
  let length ← attribute? tag "len"
  let param ← inside (fun (p : Param) text => { p with shape := p.shape ++ Blank.strip text })
    (fun p tag children =>
      match tag.localName with
      | "ptype" => do
        let text ← directText children
        return { p with base := p.base ++ text, shape := p.shape ++ "!" }
      | "name" => do
        let text ← directText children
        return { p with name := p.name ++ text, shape := p.shape ++ "?" }
      | _ => ignored p tag children)
    { group := group, length := length } children
  if param.name.isEmpty then .error .namelessParam
  -- in `const void *p` the `void` is plain text, which goes to the shape
  else if param.base.isEmpty then return { param with base := "void" }
  else return param

def readDeclaration (children : List Node) : Except Fault Command :=
  inside unheard
    (fun c tag children =>
      match tag.localName with
      | "proto" => readProto c children
      | "param" => do
        let param ← readParam tag children
        return { c with params := c.params ++ [param] }
      | _ => ignored c tag children)
    ⟨"", "", []⟩ children

/-! ### The sections of a registry -/

/-- What has been read of a document: its registry so far and the groups that
have been declared. -/
structure Digest where
  registry : Registry := { }
  declared : List String := []

def readMember (group : String) : Visit Digest := fun g tag children => do
  let member ← required tag "name"
  skipAll children
  return { g with registry := g.registry.addMember group member }

def readGroup : Visit Digest := fun g tag children => do
  let name ← required tag "name"
  if name ∈ g.declared then .error (.duplicateGroup name)
  else
    let g := ⟨g.registry.addGroup name, name :: g.declared⟩
    inside unheard (only "enum" (readMember name)) g children

/-- Reads a value of a block: first it becomes a member of the groups it lists,
then one of the values. -/
def readEntry (kind : ValueKind) : Visit Digest := fun g tag children => do
  let name ← required tag "name"
  let value ← required tag "value"
  if (Literal.value? value).isNone then .error (.nonNumeric value name)
  else
    let api ← attribute? tag "api"
    let stored := name ++ api.getD ""
    if stored ∈ g.registry.valueNames then .error (.duplicateEnum stored)
    else
      let groups ← attribute? tag "group"
      skipAll children
      let listed := listedGroups (groups.getD "")
      let registry := listed.foldl (fun r group => r.addMember group stored) g.registry
      return { g with registry := registry.addEnumerant ⟨stored, value, kind⟩ }

def readBlock : Visit Digest := fun g tag children => do
  let kind ← blockKind tag
  inside unheard (only "enum" (readEntry kind)) g children

def readMention (add : Registry → String → Registry) : Visit Digest := fun g tag children => do
  let name ← required tag "name"
  skipAll children
  return { g with registry := add g.registry name }

/-- Reads the mention of a command by an extension: its tag comes behind those
that the command has. -/
def readExtensionMention (tag : ExtensionTag) : Visit Digest :=
  readMention fun r command =>
    { r with extensions := r.extensions.update command fun tags => tags.getD [] ++ [tag] }

def readExtension : Visit Digest := fun g tag children => do
  let name ← required tag "name"
  let mention := readExtensionMention (.ofName name)
  inside unheard
    (only "require" fun g _ children => inside unheard (only "command" mention) g children)
    g children

def readVersionMention (tag : VersionTag) : Visit Digest :=
  readMention fun r command =>
    { r with versions := r.versions.update command fun tags => tags.getD [] ++ [tag] }

def readChanges (family : ApiFamily) (version : Version) (change : Change) : Visit Digest :=
  fun g _ children =>
    inside unheard (only "command" (readVersionMention ⟨change, family, version⟩)) g children

def readFeature : Visit Digest := fun g tag children => do
  let api ← required tag "api"
  match ApiFamily.ofName? api with
  | none => .error (.unknownApi api)
  | some family =>
    let number ← required tag "number"
    match Version.ofString number with
    | .error fault => .error (.number fault)
    | .ok version =>
      inside unheard
        (fun g tag children =>
          match tag.localName with
          | "require" => readChanges family version .added g tag children
          | "remove" => readChanges family version .removed g tag children
          | _ => ignored g tag children)
        g children

def readCommand : Visit Digest := fun g _ children => do
  let command ← readDeclaration children
  if command.name.isEmpty then .error .namelessCommand
  else if command.name ∈ g.registry.commands.map Command.name then
    .error (.duplicateCommand command.name)
  else return { g with
    registry := g.registry.addCommand
      { command with returnType := Blank.collapse command.returnType } }

def readRoot : Visit Digest := fun g _ children =>
  inside unheard
    (fun g tag children =>
      match tag.localName with
      | "groups" => inside unheard (only "group" readGroup) g children
      | "enums" => readBlock g tag children
      | "extensions" => inside unheard (only "extension" readExtension) g children
      | "feature" => readFeature g tag children
      | "commands" => inside unheard (only "command" readCommand) g children
      | _ => ignored g tag children)
    g children

/-- The registry that a document describes, by recursion on its trees. -/
def readTrees (document : List Node) : Except Fault Registry :=
  (inside unheard readRoot { } document).map Digest.registry

end LazyGL.Reading
