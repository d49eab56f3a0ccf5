import Std.Data.HashSet
import LazyGL.Reading.Fault
import LazyGL.Reading.Scope
import LazyGL.Registry.Basic
import LazyGL.Registry.Literal

/-!
Drafts: a registry under construction, the names it has already used, and the
entities whose elements are open. An element of each scope changes the draft
where it begins, by the text directly inside it, and where it ends.
-/

namespace LazyGL.Reading

structure Draft where
  registry : Registry := { }
  /-- The names of the values so far, of either kind. -/
  enumNames : Std.HashSet String := ∅
  /-- The names of the commands so far. -/
  commandNames : Std.HashSet String := ∅
  /-- The groups declared so far. -/
  declaredGroups : Std.HashSet String := ∅
  /-- The group whose element is open. -/
  group : Option String := none
  /-- The kind of the values in the open block. -/
  blockKind : Option ValueKind := none
  /-- The extension whose element is open. -/
  extension : Option ExtensionTag := none
  /-- The family and the version whose element is open. -/
  feature : Option (ApiFamily × Version) := none
  /-- The command whose element is open. -/
  command : Option Command := none
  /-- The parameter whose element is open. -/
  param : Option Param := none

/-- A namespace whose block lacks the mark of a bitmask. -/
def maskNamespace : String := "OcclusionQueryEventMaskAMD"

def attribute? (tag : Markup.Tag) (key : String) : Except Fault (Option String) :=
  match tag.attribute? key with
  | .ok value => .ok value
  | .error fault => .error (.lookup fault)

def required (tag : Markup.Tag) (key : String) : Except Fault String := do
  match ← attribute? tag key with
  | some value => .ok value
  | none => .error (.missing key)

def blockKind (tag : Markup.Tag) : Except Fault ValueKind := do
  if (← attribute? tag "namespace") = some maskNamespace then .ok .bitmask
  else
    match ← attribute? tag "type" with
    | none => .ok .plain
    | some "bitmask" => .ok .bitmask
    | some other => .error (.unknownBlockType other)

def listedGroups (text : String) : List String :=
  ((text.toList.splitOn ',').filter fun part => !part.isEmpty).map String.ofList

namespace Draft

def enterGroup (d : Draft) (tag : Markup.Tag) : Except Fault Draft := do
  let name ← required tag "name"
  if d.declaredGroups.contains name then .error (.duplicateGroup name)
  else .ok { d with
    declaredGroups := d.declaredGroups.insert name
    registry := d.registry.addGroup name
    group := some name }

def enterMember (d : Draft) (tag : Markup.Tag) : Except Fault Draft := do
  let member ← required tag "name"
  match d.group with
  | none => .error .memberOutsideGroup
  | some group => .ok { d with registry := d.registry.addMember group member }

/-- Reads a value of the open block. Its stored name ends with the interface it
is declared for, and it is a member of the groups it lists. -/
def enterEntry (d : Draft) (tag : Markup.Tag) : Except Fault Draft := do
  match d.blockKind with
  | none => .error .entryOutsideBlock
  | some kind =>
    let name ← required tag "name"
    let value ← required tag "value"
    if (Literal.value? value).isNone then .error (.nonNumeric value name)
    else
      let api ← attribute? tag "api"
      let stored := name ++ api.getD ""
      if d.enumNames.contains stored then .error (.duplicateEnum stored)
      else
        let groups ← attribute? tag "group"
        let listed := listedGroups (groups.getD "")
        let registry := listed.foldl (fun r group => r.addMember group stored) d.registry
        .ok { d with
          enumNames := d.enumNames.insert stored
          registry := registry.addEnumerant ⟨stored, value, kind⟩ }

def enterExtension (d : Draft) (tag : Markup.Tag) : Except Fault Draft := do
  let name ← required tag "name"
  .ok { d with extension := some (.ofName name) }

def enterExtensionCommand (d : Draft) (tag : Markup.Tag) : Except Fault Draft := do
  let name ← required tag "name"
  match d.extension with
  | none => .error .commandOutsideExtension
  | some extension => .ok { d with registry := d.registry.addExtension name extension }

def enterFeature (d : Draft) (tag : Markup.Tag) : Except Fault Draft := do
  let api ← required tag "api"
  match ApiFamily.ofName? api with
  | none => .error (.unknownApi api)
  | some family =>
    let number ← required tag "number"
    match Version.ofString number with
    | .error fault => .error (.number fault)
    | .ok version => .ok { d with feature := some (family, version) }

def enterFeatureCommand (d : Draft) (change : Change) (tag : Markup.Tag) :
    Except Fault Draft := do
  let name ← required tag "name"
  match d.feature with
  | none => .error .commandOutsideFeature
  | some (family, version) =>
    .ok { d with registry := d.registry.addVersion name ⟨change, family, version⟩ }

def enterParam (d : Draft) (tag : Markup.Tag) : Except Fault Draft := do
  let group ← attribute? tag "group"
  let length ← attribute? tag "len"
  .ok { d with param := some { group := group, length := length } }

def enter (d : Draft) (scope : Scope) (tag : Markup.Tag) : Except Fault Draft :=
  match scope with
  | .group => d.enterGroup tag
  | .groupMember => d.enterMember tag
  | .enumBlock => do
    let kind ← Reading.blockKind tag
    .ok { d with blockKind := some kind }
  | .enumEntry => d.enterEntry tag
  | .extension => d.enterExtension tag
  | .extensionCommand => d.enterExtensionCommand tag
  | .feature => d.enterFeature tag
  | .featureCommand change => d.enterFeatureCommand change tag
  | .command => .ok { d with command := some ⟨"", "", []⟩ }
  | .param => d.enterParam tag
  | _ => .ok d

def changeCommand (d : Draft) (f : Command → Command) : Except Fault Draft :=
  match d.command with
  | none => .error .outsideCommand
  | some command => .ok { d with command := some (f command) }

def changeParam (d : Draft) (f : Param → Param) : Except Fault Draft :=
  match d.param with
  | none => .error .outsideParam
  | some param => .ok { d with param := some (f param) }

def say (d : Draft) (scope : Scope) (text : String) : Except Fault Draft :=
  match scope with
  | .proto => d.changeCommand fun c => { c with returnType := c.returnType ++ text }
  | .protoType => d.changeCommand fun c => { c with returnType := c.returnType ++ text }
  | .protoName => d.changeCommand fun c => { c with name := c.name ++ text }
  | .param => d.changeParam fun p => { p with shape := p.shape ++ Blank.strip text }
  | .paramType => d.changeParam fun p => { p with base := p.base ++ text }
  | .paramName => d.changeParam fun p => { p with name := p.name ++ text }
  | _ => .ok d

def leaveParam (d : Draft) : Except Fault Draft :=
  match d.param with
  | none => .error .outsideParam
  | some param =>
    if param.name.isEmpty then .error .namelessParam
    else
      let param := if param.base.isEmpty then { param with base := "void" } else param
      { d with param := none }.changeCommand fun c => { c with params := c.params ++ [param] }

def leaveCommand (d : Draft) : Except Fault Draft :=
  match d.command with
  | none => .error .outsideCommand
  | some command =>
    if command.name.isEmpty then .error .namelessCommand
    else if d.commandNames.contains command.name then .error (.duplicateCommand command.name)
    else .ok { d with
      command := none
      commandNames := d.commandNames.insert command.name
      registry := d.registry.addCommand
        { command with returnType := Blank.collapse command.returnType } }

def leave (d : Draft) (scope : Scope) : Except Fault Draft :=
  match scope with
  | .group => .ok { d with group := none }
  | .enumBlock => .ok { d with blockKind := none }
  | .extension => .ok { d with extension := none }
  | .feature => .ok { d with feature := none }
  | .paramType => d.changeParam fun p => { p with shape := p.shape.push '!' }
  | .paramName => d.changeParam fun p => { p with shape := p.shape.push '?' }
  | .param => d.leaveParam
  | .command => d.leaveCommand
  | _ => .ok d

end Draft

end LazyGL.Reading
