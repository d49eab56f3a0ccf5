import LazyGL.Proofs.Reading.Tree

/-!
What a document says about groups. A group is declared in one place, which lists
names, and a value says in another place which groups it is in; either may come
first. All of this is collected here in document order, by recursion on the
trees and without a registry. The groups and the members of each are then those
mentioned, in the order of their first mention.
-/

namespace LazyGL.Reading

/-! ### Documents -/

def elements : List Node → List (Markup.Tag × List Node)
  | [] => []
  | .element tag children _ :: rest => (tag, children) :: elements rest
  | .closed tag :: rest => (tag, []) :: elements rest
  | _ :: rest => elements rest

def elementsNamed (name : String) (nodes : List Node) : List (Markup.Tag × List Node) :=
  (elements nodes).filter fun (tag, _) => tag.localName = name

def attributeValue (tag : Markup.Tag) (key : String) : Option String :=
  match tag.attribute? key with
  | .ok value => value
  | .error _ => none

/-- The name that a tag gives; where one is needed, an accepted document has it. -/
def nameOf (tag : Markup.Tag) : String := (attributeValue tag "name").getD ""

def commaParts (text : String) : List String :=
  (text.toList.splitOn ',').map String.ofList

inductive Remark
  /-- A declaration of the group begins. -/
  | declared (group : String)
  /-- The declaration of the group lists a name. -/
  | listed (group member : String)
  /-- A value is stored under the name, and its attribute for groups has the
  parts. -/
  | entry (name : String) (parts : List String)
deriving DecidableEq

def groupRemarks (tag : Markup.Tag) (children : List Node) : List Remark :=
  .declared (nameOf tag) ::
    (elementsNamed "enum" children).map fun (member, _) => .listed (nameOf tag) (nameOf member)

def entryRemark (tag : Markup.Tag) : Remark :=
  .entry (nameOf tag ++ (attributeValue tag "api").getD "")
    ((attributeValue tag "group").elim [] commaParts)

def sectionRemarks (tag : Markup.Tag) (children : List Node) : List Remark :=
  match tag.localName with
  | "groups" =>
    (elementsNamed "group" children).flatMap fun (tag, children) => groupRemarks tag children
  | "enums" => (elementsNamed "enum" children).map fun (tag, _) => entryRemark tag
  | _ => []

def remarks (document : List Node) : List Remark :=
  (elements document).flatMap fun (_, children) =>
    (elements children).flatMap fun (tag, children) => sectionRemarks tag children

/-! ### Mentions -/

/-- The groups that a remark mentions, each with the member that it is given
there. A part that is empty mentions no group. -/
def Remark.mentions : Remark → List (String × Option String)
  | .declared group => [(group, none)]
  | .listed group member => [(group, some member)]
  | .entry name parts => (parts.filter (· ≠ "")).map fun group => (group, some name)

def mentionedGroups (said : List Remark) : List String :=
  ((said.flatMap Remark.mentions).map Prod.fst).eraseDups

def memberIn? (group : String) (mention : String × Option String) : Option String :=
  if mention.1 = group then mention.2 else none

def mentionedMembers (said : List Remark) (group : String) : List String :=
  ((said.flatMap Remark.mentions).filterMap (memberIn? group)).eraseDups

/-! ### Memberships -/

def entryNames (said : List Remark) : List String :=
  said.filterMap fun remark =>
    match remark with
    | .entry name _ => some name
    | _ => none

/-- A value is in a group that lists it, and in the groups that it lists itself. -/
def Belongs (said : List Remark) (group member : String) : Prop :=
  ∃ parts, .entry member parts ∈ said ∧
    (.listed group member ∈ said ∨ group ≠ "" ∧ group ∈ parts)

/-- The groups that have a value, in the order of their first mention, each with
its values in the order of their first mention there. -/
def firstMentions (said : List Remark) : List (String × List String) :=
  ((mentionedGroups said).map fun group =>
    (group, (mentionedMembers said group).filter fun member => member ∈ entryNames said)).filter
      fun (_, members) => members ≠ []

section Remarks

variable {said : List Remark} {group member : String}

theorem mem_entryNames : member ∈ entryNames said ↔ ∃ parts, .entry member parts ∈ said := by
  rw [entryNames, List.mem_filterMap]
  constructor
  · rintro ⟨remark, hmem, hname⟩
    split at hname
    · next name parts =>
        rw [Option.some.injEq] at hname
        exact ⟨parts, hname ▸ hmem⟩
    · cases hname
  · rintro ⟨parts, hmem⟩
    exact ⟨_, hmem, rfl⟩

theorem mem_mentionedMembers : member ∈ mentionedMembers said group ↔
    (group, some member) ∈ said.flatMap Remark.mentions := by
  rw [mentionedMembers, List.mem_eraseDups, List.mem_filterMap]
  constructor
  · rintro ⟨⟨other, member?⟩, hmem, hmember⟩
    unfold memberIn? at hmember
    split at hmember
    · next hgroup =>
        dsimp only at hgroup hmember
        rwa [← hgroup, ← hmember]
    · cases hmember
  · intro hmem
    exact ⟨_, hmem, if_pos rfl⟩

/-- A value is mentioned as a member of a group by the group or by itself. -/
theorem mem_mentionedMembers_iff : member ∈ mentionedMembers said group ↔
    .listed group member ∈ said ∨
      ∃ parts, .entry member parts ∈ said ∧ group ≠ "" ∧ group ∈ parts := by
  rw [mem_mentionedMembers, List.mem_flatMap]
  constructor
  · rintro ⟨remark, hsaid, hmem⟩
    cases remark with
    | declared name => simp [Remark.mentions] at hmem
    | listed name other =>
        simp only [Remark.mentions, List.mem_singleton, Prod.mk.injEq, Option.some.injEq] at hmem
        obtain ⟨rfl, rfl⟩ := hmem
        exact .inl hsaid
    | entry name parts =>
        simp only [Remark.mentions, List.mem_map, List.mem_filter, decide_eq_true_eq,
          Prod.mk.injEq, Option.some.injEq] at hmem
        obtain ⟨part, ⟨hpart, hne⟩, rfl, rfl⟩ := hmem
        exact .inr ⟨parts, hsaid, hne, hpart⟩
  · rintro (hsaid | ⟨parts, hsaid, hne, hpart⟩)
    · exact ⟨_, hsaid, by simp [Remark.mentions]⟩
    · exact ⟨_, hsaid, by simp [Remark.mentions, hne, hpart]⟩

theorem belongs_iff : Belongs said group member ↔
    member ∈ mentionedMembers said group ∧ member ∈ entryNames said := by
  rw [mem_mentionedMembers_iff, mem_entryNames]
  constructor
  · rintro ⟨parts, hsaid, hlisted | hpart⟩
    · exact ⟨.inl hlisted, parts, hsaid⟩
    · exact ⟨.inr ⟨parts, hsaid, hpart⟩, parts, hsaid⟩
  · rintro ⟨hlisted | ⟨parts, hsaid, hpart⟩, hentry⟩
    · obtain ⟨parts, hsaid⟩ := hentry
      exact ⟨parts, hsaid, .inl hlisted⟩
    · exact ⟨parts, hsaid, .inr hpart⟩

/-- A group that is given a member is mentioned. -/
theorem mem_mentionedGroups (h : member ∈ mentionedMembers said group) :
    group ∈ mentionedGroups said := by
  rw [mentionedGroups, List.mem_eraseDups]
  exact List.mem_map_of_mem (f := Prod.fst) (mem_mentionedMembers.mp h)

theorem mem_firstMentions {members : List String} : (group, members) ∈ firstMentions said ↔
    members ≠ [] ∧ group ∈ mentionedGroups said ∧
      members = (mentionedMembers said group).filter fun member => member ∈ entryNames said := by
  rw [firstMentions, List.mem_filter, List.mem_map]
  simp only [Prod.mk.injEq, decide_eq_true_eq]
  constructor
  · rintro ⟨⟨_, hgroup, rfl, rfl⟩, hne⟩
    exact ⟨hne, hgroup, rfl⟩
  · rintro ⟨hne, hgroup, rfl⟩
    exact ⟨⟨_, hgroup, rfl, rfl⟩, hne⟩

theorem exists_mem_firstMentions :
    (∃ members, (group, members) ∈ firstMentions said ∧ member ∈ members) ↔
      Belongs said group member := by
  rw [belongs_iff]
  constructor
  · rintro ⟨members, hmem, hmember⟩
    obtain ⟨-, -, rfl⟩ := mem_firstMentions.mp hmem
    simpa using hmember
  · rintro ⟨hmember, hentry⟩
    have hkept : member ∈
        (mentionedMembers said group).filter fun member => member ∈ entryNames said := by
      simpa using ⟨hmember, hentry⟩
    exact ⟨_, mem_firstMentions.mpr
      ⟨List.ne_nil_of_mem hkept, mem_mentionedGroups hmember, rfl⟩, hkept⟩

end Remarks

end LazyGL.Reading
