import LazyGL.Proofs.Reading.Collection

/-!
The sections of a root element. Each kind of section reads and writes one part
of what has been read, be it accepted or refused, so a part is what the sections
of its kind alone make of it. Main statement: sections can be put in any order
that keeps the order of those of each kind, and the document is accepted as it
was before and describes the same registry.
-/

namespace LazyGL.Reading

/-! ### Parts of what has been read -/

/-- The parts of a registry that different sections write. Values may be members
of groups, so groups and values are one part. -/
inductive Part
  | definitions
  | commands
  | versions
  | extensions
deriving DecidableEq

def Part.ofName? : String → Option Part
  | "groups" => some .definitions
  | "enums" => some .definitions
  | "commands" => some .commands
  | "feature" => some .versions
  | "extensions" => some .extensions
  | _ => none

namespace Digest

def withPart (g : Digest) (part : Part) (new : Digest) : Digest :=
  match part with
  | .definitions =>
    { registry := { g.registry with
        groups := new.registry.groups
        enums := new.registry.enums
        bitfields := new.registry.bitfields }
      declared := new.declared }
  | .commands => { g with registry := { g.registry with commands := new.registry.commands } }
  | .versions => { g with registry := { g.registry with versions := new.registry.versions } }
  | .extensions => { g with registry := { g.registry with extensions := new.registry.extensions } }

variable {part other : Part}

@[simp] theorem withPart_self (g : Digest) (part : Part) : g.withPart part g = g := by
  cases part <;> rfl

@[simp] theorem withPart_withPart (g new : Digest) (part : Part) (outer : Digest) :
    g.withPart part (outer.withPart part new) = g.withPart part new := by
  cases part <;> rfl

theorem withPart_comm (h : part ≠ other) (g new new' : Digest) :
    (g.withPart part new).withPart other new' = (g.withPart other new').withPart part new := by
  cases part <;> cases other <;> first | rfl | exact absurd rfl h

/-- There is nothing in a digest but its parts. -/
theorem eq_of_withPart {g g' : Digest} (h : ∀ part, g.withPart part g' = g) : g' = g := by
  have hdefinitions := h .definitions
  have hcommands := congrArg (·.registry.commands) (h .commands)
  have hversions := congrArg (·.registry.versions) (h .versions)
  have hextensions := congrArg (·.registry.extensions) (h .extensions)
  obtain ⟨⟨_, _, _, _, _, _⟩, _⟩ := g
  obtain ⟨⟨_, _, _, _, _, _⟩, _⟩ := g'
  simp only [withPart, mk.injEq, Registry.mk.injEq] at *
  tauto

end Digest

/-! ### Readings of one part -/

/-- A digest is another one's part inside the rest of a third. -/
def Within (part : Part) (rest g g' : Digest) : Prop := g = rest.withPart part g'

/-- A visit reads and writes one part only: the rest does not matter, and stays. -/
def Confined (part : Part) (visit : Visit Digest) : Prop :=
  ∀ (rest g : Digest) (tag : Markup.Tag) (children : List Node),
    Agree (Within part rest) (visit (rest.withPart part g) tag children) (visit g tag children)

theorem confined_ignored (part : Part) : Confined part ignored :=
  fun _ _ _ _ => Agree.bind_same fun _ => .ok rfl

section Confined

variable {part : Part} {visit : Visit Digest}

theorem Confined.inside (h : Confined part visit) (rest g : Digest) (nodes : List Node) :
    Agree (Within part rest) (inside unheard visit (rest.withPart part g) nodes)
      (inside unheard visit g nodes) := by
  induction nodes generalizing g with
  | nil => exact .ok rfl
  | cons node nodes ih =>
      rw [LazyGL.Reading.inside, LazyGL.Reading.inside, List.foldlM_cons, List.foldlM_cons]
      refine Agree.bind (R := Within part rest) ?_ ?_
      · cases node with
        | element tag children ending => exact h rest g tag children
        | closed tag => exact h rest g tag []
        | text raw =>
            rw [Node.fold, Node.fold]
            cases escaped raw with
            | error fault => exact .error fault
            | ok text => exact .ok rfl
        | cdata raw =>
            rw [Node.fold, Node.fold]
            cases verbatim raw with
            | error fault => exact .error fault
            | ok text => exact .ok rfl
        | comment body => exact .ok rfl
        | instruction body => exact .ok rfl
        | doctype body => exact .ok rfl
      · rintro _ g rfl
        exact ih g

theorem Confined.only (h : Confined part visit) (name : String) :
    Confined part (only name visit) := by
  intro rest g tag children
  exact Agree.ite (fun _ => h rest g tag children) fun _ =>
    confined_ignored part rest g tag children

theorem Confined.insideOnly (h : Confined part visit) (name : String) (rest g : Digest)
    (nodes : List Node) :
    Agree (Within part rest)
      (LazyGL.Reading.inside unheard (LazyGL.Reading.only name visit) (rest.withPart part g) nodes)
      (LazyGL.Reading.inside unheard (LazyGL.Reading.only name visit) g nodes) :=
  (h.only name).inside rest g nodes

end Confined

theorem confined_member (group : String) : Confined .definitions (readMember group) :=
  fun _ _ _ _ => Agree.bind_same fun _ => Agree.bind_same fun _ => .ok rfl

theorem confined_group : Confined .definitions readGroup := by
  intro rest g tag children
  refine Agree.bind_same fun name => Agree.ite (fun _ => .error _) fun _ => ?_
  exact (confined_member name).insideOnly "enum" rest
    ⟨g.registry.addGroup name, name :: g.declared⟩ children

theorem withPart_foldl_addMember (rest g : Digest) (name : String) (listed : List String) :
    listed.foldl (fun r group => r.addMember group name)
        (rest.withPart .definitions g).registry =
      (rest.withPart .definitions
        { g with registry := listed.foldl (fun r group => r.addMember group name) g.registry
          }).registry := by
  induction listed generalizing g with
  | nil => rfl
  | cons group listed ih => exact ih { g with registry := g.registry.addMember group name }

theorem confined_entry (kind : ValueKind) : Confined .definitions (readEntry kind) := by
  intro rest g tag children
  refine Agree.bind_same fun name => Agree.bind_same fun value => ?_
  refine Agree.ite (fun _ => .error _) fun _ => Agree.bind_same fun api => ?_
  refine Agree.ite (fun _ => .error _) fun _ => Agree.bind_same fun groups => ?_
  refine Agree.bind_same fun _ => .ok ?_
  rw [withPart_foldl_addMember]
  cases kind <;> rfl

theorem confined_block : Confined .definitions readBlock :=
  fun rest g _ children => Agree.bind_same fun kind =>
    (confined_entry kind).insideOnly "enum" rest g children

theorem confined_mention {part : Part} {add : Registry → String → Registry}
    (hadd : ∀ (rest g : Digest) (name : String),
      { rest.withPart part g with registry := add (rest.withPart part g).registry name } =
        rest.withPart part { g with registry := add g.registry name }) :
    Confined part (readMention add) :=
  fun rest g _ _ => Agree.bind_same fun name => Agree.bind_same fun _ => .ok (hadd rest g name)

theorem confined_extension : Confined .extensions readExtension := by
  intro rest g tag children
  refine Agree.bind_same fun name => ?_
  have hmention : Confined .extensions (readExtensionMention (.ofName name)) :=
    confined_mention fun _ _ _ => rfl
  exact Confined.insideOnly (fun rest g _ children => hmention.insideOnly "command" rest g children)
    "require" rest g children

theorem confined_changes (family : ApiFamily) (version : Version) (change : Change) :
    Confined .versions (readChanges family version change) := by
  intro rest g _ children
  have hmention : Confined .versions (readVersionMention ⟨change, family, version⟩) :=
    confined_mention fun _ _ _ => rfl
  exact hmention.insideOnly "command" rest g children

theorem confined_feature : Confined .versions readFeature := by
  intro rest g tag children
  refine Agree.bind_same fun api => ?_
  cases ApiFamily.ofName? api with
  | none => exact .error _
  | some family =>
      refine Agree.bind_same fun number => ?_
      cases Version.ofString number with
      | error fault => exact .error _
      | ok version =>
          refine Confined.inside (fun rest g tag children => ?_) rest g children
          split
          · exact confined_changes family version .added rest g tag children
          · exact confined_changes family version .removed rest g tag children
          · exact confined_ignored _ rest g tag children

theorem confined_command : Confined .commands readCommand := by
  intro rest g tag children
  refine Agree.bind_same fun command => Agree.ite (fun _ => .error _) fun _ => ?_
  exact Agree.ite (fun _ => .error _) fun _ => .ok rfl

/-! ### Sections one after the other -/

def readSection : Visit Digest := fun g tag children =>
  match tag.localName with
  | "groups" => inside unheard (only "group" readGroup) g children
  | "enums" => readBlock g tag children
  | "extensions" => inside unheard (only "extension" readExtension) g children
  | "feature" => readFeature g tag children
  | "commands" => inside unheard (only "command" readCommand) g children
  | _ => ignored g tag children

theorem confined_section {part : Part} {tag : Markup.Tag}
    (h : Part.ofName? tag.localName = some part) (rest g : Digest) (children : List Node) :
    Agree (Within part rest) (readSection (rest.withPart part g) tag children)
      (readSection g tag children) := by
  unfold readSection
  generalize tag.localName = name at h
  unfold Part.ofName? at h
  split at h
  · cases h; exact confined_group.insideOnly "group" rest g children
  · cases h; exact confined_block rest g tag children
  · cases h; exact confined_command.insideOnly "command" rest g children
  · cases h; exact confined_feature rest g tag children
  · cases h; exact confined_extension.insideOnly "extension" rest g children
  · cases h

theorem readSection_of_none {tag : Markup.Tag} (h : Part.ofName? tag.localName = none)
    (g : Digest) (children : List Node) : readSection g tag children = ignored g tag children := by
  unfold readSection
  generalize tag.localName = name at h
  split
  · cases h
  · cases h
  · cases h
  · cases h
  · cases h
  · rfl

def partOf? (element : Markup.Tag × List Node) : Option Part := Part.ofName? element.1.localName

def readSections (g : Digest) (sections : List (Markup.Tag × List Node)) : Except Fault Digest :=
  sections.foldlM (fun g element => readSection g element.1 element.2) g

theorem readSections_cons (g : Digest) (element : Markup.Tag × List Node)
    (sections : List (Markup.Tag × List Node)) :
    readSections g (element :: sections) =
      readSection g element.1 element.2 >>= fun g => readSections g sections :=
  List.foldlM_cons

def sectionsOf (part : Part) (sections : List (Markup.Tag × List Node)) :
    List (Markup.Tag × List Node) :=
  sections.filter fun element => partOf? element = some part

theorem confined_sectionsOf (part : Part) (rest g : Digest)
    (sections : List (Markup.Tag × List Node)) :
    Agree (Within part rest) (readSections (rest.withPart part g) (sectionsOf part sections))
      (readSections g (sectionsOf part sections)) := by
  unfold sectionsOf
  induction sections generalizing g with
  | nil => exact .ok rfl
  | cons element sections ih =>
      rw [List.filter_cons]
      split
      · next hpart =>
          rw [readSections_cons, readSections_cons]
          refine (confined_section (of_decide_eq_true hpart) rest g element.2).bind ?_
          rintro _ g rfl
          exact ih g
      · exact ih g

/-- What some sections make of a part. -/
def Makes (g : Digest) (sections : List (Markup.Tag × List Node)) (part : Part) (g' : Digest) :
    Prop :=
  ∃ made, readSections g (sectionsOf part sections) = .ok made ∧ g'.withPart part made = g'

variable {g g' middle : Digest} {element : Markup.Tag × List Node}
  {sections : List (Markup.Tag × List Node)} {part other : Part}

theorem makes_cons_of_ne (h : partOf? element ≠ some part) :
    Makes g (element :: sections) part g' ↔ Makes g sections part g' := by
  have hsections : sectionsOf part (element :: sections) = sectionsOf part sections :=
    List.filter_cons_of_neg (by simpa using h)
  rw [Makes, hsections, Makes]

theorem makes_cons_of_eq (h : partOf? element = some part) :
    Makes g (element :: sections) part g' ↔
      ∃ middle, readSection g element.1 element.2 = .ok middle ∧ Makes middle sections part g' := by
  have hsections : sectionsOf part (element :: sections) =
      element :: sectionsOf part sections :=
    List.filter_cons_of_pos (by simpa using h)
  simp only [Makes, hsections, readSections_cons, bind_eq_ok_iff]
  constructor
  · rintro ⟨made, ⟨middle, hread, hrest⟩, hsame⟩
    exact ⟨middle, hread, made, hrest, hsame⟩
  · rintro ⟨middle, hread, made, hrest, hsame⟩
    exact ⟨made, ⟨middle, hread, hrest⟩, hsame⟩

/-- A section of one part does not matter to what others make of theirs. -/
theorem makes_of_other (hpart : partOf? element = some part) (hother : part ≠ other)
    (hread : readSection g element.1 element.2 = .ok middle) :
    Makes middle sections other g' ↔ Makes g sections other g' := by
  -- the section has left the other part as it was
  have hmiddle : middle.withPart other g = middle := by
    have hframe := confined_section hpart g g element.2
    rw [Digest.withPart_self, hread] at hframe
    obtain ⟨hwithin⟩ := hframe
    rw [show middle = g.withPart part middle from hwithin, Digest.withPart_comm hother,
      Digest.withPart_self]
  have hagree := confined_sectionsOf other middle g sections
  rw [hmiddle] at hagree
  unfold Makes
  generalize readSections middle (sectionsOf other sections) = after at hagree
  generalize readSections g (sectionsOf other sections) = before at hagree
  cases hagree with
  | error fault => simp
  | @ok made made' h =>
      rw [show made = middle.withPart other made' from h]
      simp

theorem makes_cons_iff (hpart : partOf? element = some part)
    (hread : readSection g element.1 element.2 = .ok middle) (other : Part) :
    Makes g (element :: sections) other g' ↔ Makes middle sections other g' := by
  by_cases hother : part = other
  · subst hother
    rw [makes_cons_of_eq hpart, hread]
    simp
  · rw [makes_of_other hpart hother hread]
    exact makes_cons_of_ne (by simpa [hpart] using hother)

/-- Some elements are accepted if those without meaning are, and if the sections
of each part are accepted by themselves; each part is then what these make of it. -/
theorem readSections_eq_ok_iff :
    readSections g sections = .ok g' ↔
      (∀ element ∈ sections, partOf? element = none → skipAll element.2 = .ok ()) ∧
        ∀ part, Makes g sections part g' := by
  induction sections generalizing g with
  | nil =>
      constructor
      · intro h
        obtain rfl : g = g' := Except.ok.inj h
        exact ⟨by simp, fun part => ⟨g, rfl, g.withPart_self part⟩⟩
      · rintro ⟨-, hparts⟩
        have hsame : g = g' := by
          apply Digest.eq_of_withPart
          intro part
          obtain ⟨made, hmade, hpart⟩ := hparts part
          rwa [show g = made from Except.ok.inj hmade]
        exact congrArg _ hsame
  | cons element sections ih =>
      rw [readSections_cons, List.forall_mem_cons]
      cases hpart : partOf? element with
      | none =>
          have hmakes (part : Part) :
              Makes g (element :: sections) part g' ↔ Makes g sections part g' :=
            makes_cons_of_ne (by simp [hpart])
          simp only [hmakes, readSection_of_none hpart, ignored]
          cases hskip : skipAll element.2 with
          | error fault => simp [bind, Except.bind]
          | ok _ =>
              simp only [implies_true, true_and]
              exact ih
      | some part =>
          rw [bind_eq_ok_iff]
          constructor
          · rintro ⟨middle, hread, hrest⟩
            obtain ⟨hskip, hparts⟩ := ih.mp hrest
            exact ⟨⟨by simp, hskip⟩, fun other =>
              (makes_cons_iff hpart hread other).mpr (hparts other)⟩
          · rintro ⟨⟨-, hskip⟩, hparts⟩
            -- the sections of its own part include the first element
            obtain ⟨middle, hread, -⟩ := (makes_cons_of_eq hpart).mp (hparts part)
            exact ⟨middle, hread, ih.mpr ⟨hskip, fun other =>
              (makes_cons_iff hpart hread other).mp (hparts other)⟩⟩

/-! ### Root elements -/

/-- A text is well formed; nothing is asked of another piece. -/
def Node.Heard : Node → Prop
  | .text raw => ∃ text, escaped raw = .ok text
  | .cdata raw => ∃ text, verbatim raw = .ok text
  | _ => True

/-- Where no text has a meaning, the texts only have to be well formed. -/
theorem inside_unheard_eq_ok_iff {α : Type} {visit : Visit α} {a a' : α} {nodes : List Node} :
    inside unheard visit a nodes = .ok a' ↔
      (∀ node ∈ nodes, node.Heard) ∧
        (elements nodes).foldlM (fun a element => visit a element.1 element.2) a = .ok a' := by
  induction nodes generalizing a with
  | nil => simp [inside, elements]
  | cons node nodes ih =>
      unfold inside at ih ⊢
      rw [List.foldlM_cons, bind_eq_ok_iff, List.forall_mem_cons]
      have hunheard {text : Except Fault String} :
          (∃ middle, text.map (unheard a) = .ok middle ∧
              nodes.foldlM (Node.fold unheard visit) middle = .ok a') ↔
            (∃ heard, text = .ok heard) ∧ nodes.foldlM (Node.fold unheard visit) a = .ok a' := by
        cases text with
        | error fault => simp [Except.map]
        | ok heard => simp [Except.map, unheard]
      cases node with
      | element tag children ending =>
          simp only [Node.fold, Node.Heard, elements, true_and, List.foldlM_cons, bind_eq_ok_iff,
            ih]
          tauto
      | closed tag =>
          simp only [Node.fold, Node.Heard, elements, true_and, List.foldlM_cons, bind_eq_ok_iff,
            ih]
          tauto
      | text raw => exact (hunheard.trans (and_congr_right' ih)).trans and_assoc.symm
      | cdata raw => exact (hunheard.trans (and_congr_right' ih)).trans and_assoc.symm
      | comment body => simp [Node.fold, Node.Heard, elements, ih]
      | instruction body => simp [Node.fold, Node.Heard, elements, ih]
      | doctype body => simp [Node.fold, Node.Heard, elements, ih]

/-- The same elements in an order that is the same for the sections of each part.
The texts between them may be joined or split, as long as they stay well formed. -/
structure Reordered (children children' : List Node) : Prop where
  perm : (elements children').Perm (elements children)
  order : ∀ part, sectionsOf part (elements children') = sectionsOf part (elements children)
  texts : (∀ node ∈ children', node.Heard) ↔ ∀ node ∈ children, node.Heard

def Node.element? : Node → Option (Markup.Tag × List Node)
  | .element tag children _ => some (tag, children)
  | .closed tag => some (tag, [])
  | _ => none

theorem elements_eq_filterMap (nodes : List Node) :
    elements nodes = nodes.filterMap Node.element? := by
  induction nodes with
  | nil => rfl
  | cons node nodes ih =>
      cases node with
      | element tag children ending => exact congrArg _ ih
      | closed tag => exact congrArg _ ih
      | _ => exact ih

/-- The pieces themselves, texts included, in such an order. -/
theorem Reordered.of_perm {children children' : List Node} (hperm : children'.Perm children)
    (horder : ∀ part, sectionsOf part (elements children') = sectionsOf part (elements children)) :
    Reordered children children' where
  perm := by
    rw [elements_eq_filterMap, elements_eq_filterMap]
    exact hperm.filterMap Node.element?
  order := horder
  texts := by simp only [hperm.mem_iff]

theorem Reordered.readRoot_eq_ok_iff {children children' : List Node}
    (h : Reordered children children') (g g' : Digest) (tag : Markup.Tag) :
    readRoot g tag children' = .ok g' ↔ readRoot g tag children = .ok g' := by
  have hsections (nodes : List Node) : readRoot g tag nodes = .ok g' ↔
      (∀ node ∈ nodes, node.Heard) ∧
        (∀ element ∈ elements nodes, partOf? element = none → skipAll element.2 = .ok ()) ∧
          ∀ part, Makes g (elements nodes) part g' := by
    rw [← readSections_eq_ok_iff]
    exact inside_unheard_eq_ok_iff
  have hmakes (part : Part) :
      Makes g (elements children') part g' ↔ Makes g (elements children) part g' := by
    rw [Makes, Makes, h.order]
  simp only [hsections, h.texts, h.perm.mem_iff, hmakes]

/-! ### Whole documents -/

theorem readTrees_congr_root {before children children' after : List Node} {tag : Markup.Tag}
    {ending : Bytes}
    (h : ∀ g g', readRoot g tag children' = .ok g' ↔ readRoot g tag children = .ok g')
    (r : Registry) :
    readTrees (before ++ .element tag children' ending :: after) = .ok r ↔
      readTrees (before ++ .element tag children ending :: after) = .ok r := by
  have hmap (read : Except Fault Digest) :
      read.map Digest.registry = .ok r ↔ ∃ g, read = .ok g ∧ g.registry = r := by
    cases read <;> simp [Except.map]
  simp only [readTrees, inside, hmap, List.foldlM_append, List.foldlM_cons, bind_eq_ok_iff,
    Node.fold, h]

/-- The events of a document are those of its trees, one of which is the element
with the given children. -/
structure Around (before : List Node) (tag : Markup.Tag) (children : List Node) (ending : Bytes)
    (after : List Node) (input : Bytes) : Prop where
  whole : (Markup.transcribe input).fault = none
  events : (Markup.transcribe input).events.map Prod.snd =
    eventsOf (before ++ .element tag children ending :: after)

/-- The sections of a root element can be put in any order in which those that
write one part keep theirs: the document is accepted if and only if it was, and
it describes the same registry. -/
theorem ofDocument_reordered {input input' : Bytes} {before children children' after : List Node}
    {tag : Markup.Tag} {ending : Bytes} (hinput : Around before tag children ending after input)
    (hinput' : Around before tag children' ending after input') (h : Reordered children children')
    (r : Registry) : Registry.ofDocument input' = .ok r ↔ Registry.ofDocument input = .ok r := by
  have hread {input : Bytes} {children : List Node}
      (hinput : Around before tag children ending after input) :
      Registry.ofDocument input = .ok r ↔
        readTrees (before ++ .element tag children ending :: after) = .ok r :=
    ⟨fun h => readTrees_of_ofDocument h hinput.events,
      ofDocument_of_readTrees hinput.whole hinput.events⟩
  rw [hread hinput, hread hinput']
  exact readTrees_congr_root (fun g g' => h.readRoot_eq_ok_iff g g' tag) r

/-- Groups before their values, with a section of another part and a piece without
meaning that change their places. -/
theorem ofDocument_reordered_sections :
    let groups : Node := .element ⟨Utf8.ofString "groups"⟩
      [.closed ⟨Utf8.ofString "group name='G'"⟩] (Utf8.ofString "groups")
    let blank : Node := .text (Utf8.ofString " ")
    let commands : Node := .closed ⟨Utf8.ofString "commands"⟩
    let enums : Node := .element ⟨Utf8.ofString "enums"⟩
      [.closed ⟨Utf8.ofString "enum name='A' value='1' group='H,G'"⟩] (Utf8.ofString "enums")
    let other : Node := .closed ⟨Utf8.ofString "x"⟩
    let input := Utf8.ofString ("<r><groups><group name='G'/></groups> <commands/>" ++
      "<enums><enum name='A' value='1' group='H,G'/></enums><x/></r>")
    let input' := Utf8.ofString ("<r><x/><commands/><groups><group name='G'/></groups> " ++
      "<enums><enum name='A' value='1' group='H,G'/></enums></r>")
    let r : Registry :=
      { groups := ⟨[("G", ⟨["A"], by decide⟩), ("H", ⟨["A"], by decide⟩)], by decide⟩
        enums := [⟨"A", "1", .plain⟩] }
    Around [] ⟨Utf8.ofString "r"⟩ [groups, blank, commands, enums, other] (Utf8.ofString "r") []
        input ∧
      Around [] ⟨Utf8.ofString "r"⟩ [other, commands, groups, blank, enums] (Utf8.ofString "r") []
        input' ∧
      Reordered [groups, blank, commands, enums, other] [other, commands, groups, blank, enums] ∧
      Registry.ofDocument input = .ok r ∧ Registry.ofDocument input' = .ok r := by
  intro groups blank commands enums other input input' r
  have hinput : Around [] ⟨Utf8.ofString "r"⟩ [groups, blank, commands, enums, other]
      (Utf8.ofString "r") [] input := And.elim .mk (by decide +kernel)
  have hinput' : Around [] ⟨Utf8.ofString "r"⟩ [other, commands, groups, blank, enums]
      (Utf8.ofString "r") [] input' := And.elim .mk (by decide +kernel)
  have hreordered : Reordered [groups, blank, commands, enums, other]
      [other, commands, groups, blank, enums] := by
    refine .of_perm ?_ fun part => ?_
    · have hcommands : ([groups, blank] ++ commands :: [enums]).Perm
          (commands :: ([groups, blank] ++ [enums])) := List.perm_middle
      have hother : ([other] ++ [groups, blank, commands, enums]).Perm
          ([groups, blank, commands, enums] ++ [other]) := List.perm_append_comm
      exact (hcommands.symm.cons other).trans hother
    · cases part <;> rfl
  have haccepted : Registry.ofDocument input = .ok r :=
    ofDocument_of_readTrees hinput.whole hinput.events (by decide +kernel)
  exact ⟨hinput, hinput', hreordered, haccepted,
    (ofDocument_reordered hinput hinput' hreordered r).mpr haccepted⟩

end LazyGL.Reading
