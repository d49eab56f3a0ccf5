import LazyGL.Proofs.Reading.Nesting

/-!
What the actions of a reading do to a draft, said once. The start of an element,
a text and the end of an element each have one case for every kind of change,
with what the change needs and what it has made sure of. What is to hold of all
drafts is then proved by these cases, and no reading is taken apart again.
-/

namespace LazyGL.Reading

open Std (HashSet)

/-- The scopes whose elements pass something on to those inside them. -/
def Scope.providers : List Scope :=
  [.group, .enumBlock, .extension, .feature, .command, .param]

namespace Draft

variable {d d' : Draft} {scope : Scope}

/-! ### Starts of elements -/

inductive Entered (d : Draft) : Scope → Draft → Prop
  | group {name : String} (hnew : name ∉ d.declaredGroups) :
      Entered d .group { d with
        declaredGroups := d.declaredGroups.insert name
        registry := d.registry.addGroup name
        group := some name }
  | member {group : String} (hgroup : d.group = some group) (name : String) :
      Entered d .groupMember { d with registry := d.registry.addMember group name }
  | block (kind : ValueKind) : Entered d .enumBlock { d with blockKind := some kind }
  /-- The value is added after the groups that it lists. -/
  | entry {kind : ValueKind} (hkind : d.blockKind = some kind) {stored value : String}
      (hnew : stored ∉ d.enumNames) (hvalue : (Literal.value? value).isSome)
      (listed : List String) :
      Entered d .enumEntry { d with
        enumNames := d.enumNames.insert stored
        registry := (listed.foldl (fun r group => r.addMember group stored)
          d.registry).addEnumerant ⟨stored, value, kind⟩ }
  | extension (extension : ExtensionTag) :
      Entered d .extension { d with extension := some extension }
  | extensionCommand {extension : ExtensionTag} (hextension : d.extension = some extension)
      (name : String) :
      Entered d .extensionCommand { d with registry := d.registry.addExtension name extension }
  | feature (feature : ApiFamily × Version) : Entered d .feature { d with feature := some feature }
  | featureCommand {family : ApiFamily} {version : Version}
      (hfeature : d.feature = some (family, version)) (change : Change) (name : String) :
      Entered d (.featureCommand change)
        { d with registry := d.registry.addVersion name ⟨change, family, version⟩ }
  | command : Entered d .command { d with command := some ⟨"", "", []⟩ }
  | param (group length : Option String) :
      Entered d .param { d with param := some { group := group, length := length } }
  | other {scope : Scope} (hscope : scope ∉ Scope.providers) : Entered d scope d

theorem entered_enterGroup {tag : Markup.Tag} (h : d.enterGroup tag = .ok d') :
    d.Entered .group d' := by
  obtain ⟨name, -, h⟩ := exists_of_bind_eq_ok h
  split at h
  · cases h
  · next hnew =>
      cases h
      rw [HashSet.contains_iff_mem] at hnew
      exact .group hnew

theorem entered_enterMember {tag : Markup.Tag} (h : d.enterMember tag = .ok d') :
    d.Entered .groupMember d' := by
  obtain ⟨member, -, h⟩ := exists_of_bind_eq_ok h
  split at h
  · cases h
  · next group hgroup =>
      cases h
      exact .member hgroup member

theorem entered_enterEntry {tag : Markup.Tag} (h : d.enterEntry tag = .ok d') :
    d.Entered .enumEntry d' := by
  unfold Draft.enterEntry at h
  split at h
  · cases h
  next kind hkind =>
  obtain ⟨name, -, h⟩ := exists_of_bind_eq_ok h
  obtain ⟨value, -, h⟩ := exists_of_bind_eq_ok h
  split at h
  · cases h
  next hvalue =>
  obtain ⟨api, -, h⟩ := exists_of_bind_eq_ok h
  dsimp only at h
  split at h
  · cases h
  next hnew =>
  obtain ⟨groups, -, h⟩ := exists_of_bind_eq_ok h
  cases h
  rw [HashSet.contains_iff_mem] at hnew
  rw [Option.isNone_iff_eq_none, ← ne_eq, ← Option.isSome_iff_ne_none] at hvalue
  exact .entry hkind hnew hvalue (listedGroups (groups.getD ""))

theorem entered_enterExtensionCommand {tag : Markup.Tag}
    (h : d.enterExtensionCommand tag = .ok d') : d.Entered .extensionCommand d' := by
  obtain ⟨name, -, h⟩ := exists_of_bind_eq_ok h
  split at h
  · cases h
  · next extension hextension =>
      cases h
      exact .extensionCommand hextension name

theorem entered_enterFeature {tag : Markup.Tag} (h : d.enterFeature tag = .ok d') :
    d.Entered .feature d' := by
  obtain ⟨api, -, h⟩ := exists_of_bind_eq_ok h
  split at h
  · cases h
  obtain ⟨number, -, h⟩ := exists_of_bind_eq_ok h
  split at h
  · cases h
  · cases h
    exact .feature _

theorem entered_enterFeatureCommand {change : Change} {tag : Markup.Tag}
    (h : d.enterFeatureCommand change tag = .ok d') : d.Entered (.featureCommand change) d' := by
  obtain ⟨name, -, h⟩ := exists_of_bind_eq_ok h
  split at h
  · cases h
  · next family version hfeature =>
      cases h
      exact .featureCommand hfeature change name

theorem entered_enter {tag : Markup.Tag} (h : d.enter scope tag = .ok d') : d.Entered scope d' := by
  unfold Draft.enter at h
  split at h
  · exact entered_enterGroup h
  · exact entered_enterMember h
  · obtain ⟨kind, -, h⟩ := exists_of_bind_eq_ok h
    cases h
    exact .block kind
  · exact entered_enterEntry h
  · obtain ⟨name, -, h⟩ := exists_of_bind_eq_ok h
    cases h
    exact .extension _
  · exact entered_enterExtensionCommand h
  · exact entered_enterFeature h
  · exact entered_enterFeatureCommand h
  · cases h
    exact .command
  · obtain ⟨group, -, h⟩ := exists_of_bind_eq_ok h
    obtain ⟨length, -, h⟩ := exists_of_bind_eq_ok h
    cases h
    exact .param group length
  · cases h
    refine .other fun hmem => ?_
    simp only [Scope.providers, List.mem_cons, List.not_mem_nil, or_false] at hmem
    rcases hmem with rfl | rfl | rfl | rfl | rfl | rfl <;> contradiction

/-! ### Texts -/

theorem exists_of_changeCommand {f : Command → Command} (h : d.changeCommand f = .ok d') :
    ∃ c, d.command = some c ∧ d' = { d with command := some (f c) } := by
  unfold changeCommand at h
  split at h
  · cases h
  · next c hc =>
      cases h
      exact ⟨c, hc, rfl⟩

theorem exists_of_changeParam {f : Param → Param} (h : d.changeParam f = .ok d') :
    ∃ p, d.param = some p ∧ d' = { d with param := some (f p) } := by
  unfold changeParam at h
  split at h
  · cases h
  · next p hp =>
      cases h
      exact ⟨p, hp, rfl⟩

inductive Said (d : Draft) (text : String) : Scope → Draft → Prop
  /-- The text belongs to the name or to the return type of a command. -/
  | command {scope : Scope} {c c' : Command} (hc : d.command = some c)
      (hparams : c'.params = c.params) : Said d text scope { d with command := some c' }
  | paramShape {p : Param} (hp : d.param = some p) :
      Said d text .param { d with param := some { p with shape := p.shape ++ Blank.strip text } }
  | paramType {p : Param} (hp : d.param = some p) :
      Said d text .paramType { d with param := some { p with base := p.base ++ text } }
  | paramName {p : Param} (hp : d.param = some p) :
      Said d text .paramName { d with param := some { p with name := p.name ++ text } }
  | other {scope : Scope} : Said d text scope d

theorem said_say {text : String} (h : d.say scope text = .ok d') : d.Said text scope d' := by
  unfold Draft.say at h
  split at h
  · obtain ⟨c, hc, rfl⟩ := exists_of_changeCommand h
    exact .command hc rfl
  · obtain ⟨c, hc, rfl⟩ := exists_of_changeCommand h
    exact .command hc rfl
  · obtain ⟨c, hc, rfl⟩ := exists_of_changeCommand h
    exact .command hc rfl
  · obtain ⟨p, hp, rfl⟩ := exists_of_changeParam h
    exact .paramShape hp
  · obtain ⟨p, hp, rfl⟩ := exists_of_changeParam h
    exact .paramType hp
  · obtain ⟨p, hp, rfl⟩ := exists_of_changeParam h
    exact .paramName hp
  · cases h
    exact .other

/-! ### Ends of elements -/

inductive Left (d : Draft) : Scope → Draft → Prop
  | group : Left d .group { d with group := none }
  | block : Left d .enumBlock { d with blockKind := none }
  | extension : Left d .extension { d with extension := none }
  | feature : Left d .feature { d with feature := none }
  | paramType {p : Param} (hp : d.param = some p) :
      Left d .paramType { d with param := some { p with shape := p.shape.push '!' } }
  | paramName {p : Param} (hp : d.param = some p) :
      Left d .paramName { d with param := some { p with shape := p.shape.push '?' } }
  /-- The parameter becomes the last one of its command. -/
  | param {p : Param} {c : Command} (hp : d.param = some p) (hc : d.command = some c)
      (hname : p.name ≠ "") :
      Left d .param { d with
        param := none
        command := some { c with
          params := c.params ++ [if p.base.isEmpty then { p with base := "void" } else p] } }
  | command {c : Command} (hc : d.command = some c) (hname : c.name ≠ "")
      (hnew : c.name ∉ d.commandNames) :
      Left d .command { d with
        command := none
        commandNames := d.commandNames.insert c.name
        registry := d.registry.addCommand { c with returnType := Blank.collapse c.returnType } }
  | other {scope : Scope} (hscope : scope ∉ Scope.providers) (htype : scope ≠ .paramType)
      (hname : scope ≠ .paramName) : Left d scope d

theorem left_leaveParam (h : d.leaveParam = .ok d') : d.Left .param d' := by
  unfold Draft.leaveParam at h
  split at h
  · cases h
  next p hp =>
  split at h
  · cases h
  next hname =>
  obtain ⟨c, hc, rfl⟩ := exists_of_changeCommand h
  exact .param hp hc (by simpa using hname)

theorem left_leaveCommand (h : d.leaveCommand = .ok d') : d.Left .command d' := by
  unfold Draft.leaveCommand at h
  split at h
  · cases h
  next c hc =>
  split at h
  · cases h
  next hname =>
  split at h
  · cases h
  next hnew =>
  cases h
  rw [HashSet.contains_iff_mem] at hnew
  exact .command hc (by simpa using hname) hnew

theorem left_leave (h : d.leave scope = .ok d') : d.Left scope d' := by
  unfold Draft.leave at h
  split at h
  · cases h
    exact .group
  · cases h
    exact .block
  · cases h
    exact .extension
  · cases h
    exact .feature
  · obtain ⟨p, hp, rfl⟩ := exists_of_changeParam h
    exact .paramType hp
  · obtain ⟨p, hp, rfl⟩ := exists_of_changeParam h
    exact .paramName hp
  · exact left_leaveParam h
  · exact left_leaveCommand h
  · cases h
    refine .other (fun hmem => ?_) ?_ ?_
    · simp only [Scope.providers, List.mem_cons, List.not_mem_nil, or_false] at hmem
      rcases hmem with rfl | rfl | rfl | rfl | rfl | rfl <;> contradiction
    · assumption
    · assumption

end Draft

end LazyGL.Reading
