import LazyGL.Proofs.Reading.Descent
import LazyGL.Proofs.Reading.Forest
import LazyGL.Proofs.Reading.Remarks
import LazyGL.Proofs.Registry.Conservation

/-!
The groups of a registry are what its document says about them. While a document
is read, the groups so far collect the mentions so far: each reading of an
element adds what that element says. Main statement: a normal form has the
groups that the document gives values to, in the order of their first mention.
-/

namespace LazyGL.Reading

/-! ### Mentions in order -/

theorem eraseDups_concat {α : Type} [DecidableEq α] (l : List α) (a : α) :
    (l ++ [a]).eraseDups = if a ∈ l then l.eraseDups else l.eraseDups ++ [a] := by
  rw [List.eraseDups_append]
  by_cases h : a ∈ l
  · simp [List.removeAll, h]
  · simp [List.removeAll, h, List.eraseDups_cons]

structure Collects (groups : OrderedMap String (OrderedSet String))
    (mentions : List (String × Option String)) : Prop where
  keys : groups.entries.map Prod.fst = (mentions.map Prod.fst).eraseDups
  members : ∀ group, ((groups.get? group).getD .empty).toList =
    (mentions.filterMap (memberIn? group)).eraseDups

section Collects

variable {groups : OrderedMap String (OrderedSet String)} {mentions : List (String × Option String)}

/-- One more mention of a group, where it may be given a member. -/
theorem Collects.update (h : Collects groups mentions) (group : String) (member? : Option String)
    {f : Option (OrderedSet String) → OrderedSet String}
    (hf : ∀ members, (f members).toList =
      (member?.elim (members.getD .empty) (members.getD .empty).insert).toList) :
    Collects (groups.update group f) (mentions ++ [(group, member?)]) where
  keys := by
    rw [OrderedMap.entries_update, OrderedMap.keys_updateEntries, h.keys, List.map_append,
      List.map_singleton, eraseDups_concat]
    simp only [List.mem_eraseDups]
  members other := by
    rw [OrderedMap.get?_update, List.filterMap_append]
    by_cases hother : other = group
    · subst hother
      have hbefore := h.members other
      rw [if_pos rfl, Option.getD_some, hf]
      have hmember : memberIn? other (other, member?) = member? := if_pos rfl
      cases member? with
      | none =>
          rw [Option.elim_none, hbefore, List.filterMap_cons_none hmember, List.filterMap_nil,
            List.append_nil]
      | some member =>
          rw [Option.elim_some, OrderedSet.toList_insert, hbefore,
            List.filterMap_cons_some hmember, List.filterMap_nil, eraseDups_concat]
          simp only [List.mem_eraseDups]
    · have hmember : memberIn? other (group, member?) = none := if_neg (Ne.symm hother)
      rw [if_neg hother, h.members, List.filterMap_cons_none hmember, List.filterMap_nil,
        List.append_nil]

theorem Collects.addGroup {r : Registry} (h : Collects r.groups mentions) (group : String) :
    Collects (r.addGroup group).groups (mentions ++ [(group, none)]) :=
  h.update group none fun _ => rfl

theorem Collects.addMember {r : Registry} (h : Collects r.groups mentions) (group member : String) :
    Collects (r.addMember group member).groups (mentions ++ [(group, some member)]) :=
  h.update group (some member) fun _ => rfl

theorem Collects.foldl_addMember {r : Registry} (h : Collects r.groups mentions) (member : String)
    (listed : List String) :
    Collects (listed.foldl (fun r group => r.addMember group member) r).groups
      (mentions ++ listed.map fun group => (group, some member)) := by
  induction listed generalizing r mentions with
  | nil => simpa using h
  | cons group listed ih =>
      have hrest := ih (h.addMember group member)
      rwa [List.append_assoc] at hrest

end Collects

/-! ### Readings -/

/-- The groups of what has been read are those of the remarks so far, and its
values are those of the entries among them. -/
structure Reports (g : Digest) (said : List Remark) : Prop where
  groups : Collects g.registry.groups (said.flatMap Remark.mentions)
  names : ∀ name, name ∈ g.registry.valueNames ↔ ∃ parts, .entry name parts ∈ said

theorem reports_empty : Reports { } [] where
  groups := ⟨rfl, fun _ => rfl⟩
  names _ := by simp [Registry.valueNames]

section Reports

variable {g : Digest} {said : List Remark}

/-- A remark that is no entry leaves the values alone. -/
theorem Reports.remark (h : Reports g said) {g' : Digest} {remark : Remark}
    (hentry : ∀ name parts, remark ≠ .entry name parts)
    (hgroups : Collects g'.registry.groups (said.flatMap Remark.mentions ++ remark.mentions))
    (hnames : g'.registry.valueNames = g.registry.valueNames) :
    Reports g' (said ++ [remark]) where
  groups := by rwa [List.flatMap_append, List.flatMap_singleton]
  names name := by
    rw [hnames, h.names]
    refine exists_congr fun parts => ?_
    rw [List.mem_append, List.mem_singleton, or_iff_left fun heq => hentry name parts heq.symm]

structure Tells (visit : Visit Digest) (told : Markup.Tag → List Node → List Remark) : Prop where
  visited : ∀ {g g' : Digest} {said : List Remark} {tag : Markup.Tag} {children : List Node},
    visit g tag children = .ok g' → Reports g said → Reports g' (said ++ told tag children)

theorem tells_ignored : Tells ignored fun _ _ => [] := by
  constructor
  intro g g' said tag children hvisit h
  obtain ⟨-, -, hvisit⟩ := exists_of_bind_eq_ok hvisit
  cases hvisit
  rwa [List.append_nil]

variable {visit : Visit Digest} {told : Markup.Tag → List Node → List Remark}

/-- The remarks inside an element are those of the elements there, one after the
other. -/
theorem Tells.inside (h : Tells visit told) {g' : Digest} {nodes : List Node}
    (hread : inside unheard visit g nodes = .ok g') (hg : Reports g said) :
    Reports g' (said ++ (elements nodes).flatMap fun (tag, children) => told tag children) := by
  induction nodes generalizing g said with
  | nil =>
      cases hread
      rwa [elements, List.flatMap_nil, List.append_nil]
  | cons node nodes ih =>
      rw [LazyGL.Reading.inside, List.foldlM_cons] at hread
      obtain ⟨middle, hnode, hrest⟩ := exists_of_bind_eq_ok hread
      clear hread
      change LazyGL.Reading.inside unheard visit middle nodes = .ok g' at hrest
      have hunheard {text : Except Fault String} (htext : text.map (unheard g) = .ok middle) :
          middle = g := by
        cases text with
        | error fault => cases htext
        | ok text => exact (Except.ok.inj htext).symm
      cases node with
      | element tag children ending =>
          have hreports := ih hrest (h.visited hnode hg)
          rwa [List.append_assoc] at hreports
      | closed tag =>
          have hreports := ih hrest (h.visited hnode hg)
          rwa [List.append_assoc] at hreports
      | text raw => exact ih hrest (hunheard hnode ▸ hg)
      | cdata raw => exact ih hrest (hunheard hnode ▸ hg)
      | comment body => cases hnode; exact ih hrest hg
      | instruction body => cases hnode; exact ih hrest hg
      | doctype body => cases hnode; exact ih hrest hg

theorem flatMap_elementsNamed {β : Type} (name : String) (nodes : List Node)
    (told : Markup.Tag → List Node → List β) :
    ((elementsNamed name nodes).flatMap fun (tag, children) => told tag children) =
      (elements nodes).flatMap fun (tag, children) =>
        if tag.localName = name then told tag children else [] := by
  unfold elementsNamed
  induction elements nodes with
  | nil => rfl
  | cons element rest ih =>
      rw [List.filter_cons, List.flatMap_cons, ← ih]
      by_cases hname : element.1.localName = name
      · simp only [hname, decide_true, if_true, List.flatMap_cons]
      · simp only [hname, decide_false, if_false, List.nil_append, Bool.false_eq_true]

theorem Tells.only (h : Tells visit told) (name : String) :
    Tells (only name visit) fun tag children =>
      if tag.localName = name then told tag children else [] := by
  constructor
  intro g g' said tag children hvisit hg
  unfold LazyGL.Reading.only at hvisit
  by_cases hname : tag.localName = name
  · rw [if_pos hname] at hvisit ⊢
    exact h.visited hvisit hg
  · rw [if_neg hname] at hvisit ⊢
    exact tells_ignored.visited hvisit hg

theorem Tells.insideOnly (h : Tells visit told) {name : String} {g' : Digest} {nodes : List Node}
    (hread : LazyGL.Reading.inside unheard (LazyGL.Reading.only name visit) g nodes = .ok g')
    (hg : Reports g said) :
    Reports g' (said ++
      (elementsNamed name nodes).flatMap fun (tag, children) => told tag children) := by
  rw [flatMap_elementsNamed]
  exact (h.only name).inside hread hg

/-- Nothing is said inside an element if none of the elements there says anything. -/
theorem Tells.insideSilent (h : Tells visit fun _ _ => []) {g' : Digest} {nodes : List Node}
    (hread : LazyGL.Reading.inside unheard visit g nodes = .ok g') (hg : Reports g said) :
    Reports g' (said ++ []) := by
  have hsilent := h.inside hread hg
  rwa [List.flatMap_eq_nil_iff.mpr fun _ _ => rfl] at hsilent

theorem silent_inside (h : Tells visit fun _ _ => []) :
    Tells (fun g _ children => LazyGL.Reading.inside unheard visit g children) fun _ _ => [] :=
  ⟨h.insideSilent⟩

theorem silent_only (h : Tells visit fun _ _ => []) (name : String) :
    Tells (LazyGL.Reading.only name visit) fun _ _ => [] := by
  constructor
  intro g g' said tag children hvisit hg
  have honly := (h.only name).visited hvisit hg
  rwa [ite_self] at honly

end Reports

/-! ### Sections -/

section Attributes

variable {tag : Markup.Tag} {key : String}

theorem attributeValue_of_attribute? {value : Option String}
    (h : attribute? tag key = .ok value) : attributeValue tag key = value := by
  unfold attribute? at h
  unfold attributeValue
  cases hlookup : tag.attribute? key with
  | error fault =>
      rw [hlookup] at h
      cases h
  | ok found =>
      rw [hlookup] at h
      exact Except.ok.inj h

theorem attributeValue_of_required {value : String} (h : required tag key = .ok value) :
    attributeValue tag key = some value := by
  obtain ⟨found, hfound, h⟩ := exists_of_bind_eq_ok h
  rw [attributeValue_of_attribute? hfound]
  cases found with
  | none => cases h
  | some found => rw [Except.ok.inj h]

theorem nameOf_of_required {name : String} (h : required tag "name" = .ok name) :
    nameOf tag = name := by
  rw [nameOf, attributeValue_of_required h, Option.getD_some]

theorem listedGroups_eq (text : String) :
    listedGroups text = (commaParts text).filter (· ≠ "") := by
  unfold listedGroups commaParts
  rw [List.filter_map]
  refine congrArg _ (List.filter_congr fun part _ => ?_)
  cases part <;> simp

end Attributes

theorem tells_member (group : String) :
    Tells (readMember group) fun tag _ => [.listed group (nameOf tag)] := by
  constructor
  intro g g' said tag children hvisit h
  obtain ⟨member, hmember, hvisit⟩ := exists_of_bind_eq_ok hvisit
  obtain ⟨-, -, hvisit⟩ := exists_of_bind_eq_ok hvisit
  cases hvisit
  rw [nameOf_of_required hmember]
  exact h.remark (by simp) (h.groups.addMember group member) rfl

theorem tells_group : Tells readGroup groupRemarks := by
  constructor
  intro g g' said tag children hvisit h
  obtain ⟨name, hname, hvisit⟩ := exists_of_bind_eq_ok hvisit
  split at hvisit
  · cases hvisit
  have hopen : Reports ⟨g.registry.addGroup name, name :: g.declared⟩ (said ++ [.declared name]) :=
    h.remark (by simp) (h.groups.addGroup name) rfl
  have hmembers := (tells_member name).insideOnly hvisit hopen
  rwa [List.append_assoc, ← List.map_eq_flatMap, List.singleton_append,
    ← nameOf_of_required hname] at hmembers

theorem tells_entry (kind : ValueKind) : Tells (readEntry kind) fun tag _ => [entryRemark tag] := by
  constructor
  intro g g' said tag children hvisit h
  obtain ⟨name, hname, hvisit⟩ := exists_of_bind_eq_ok hvisit
  obtain ⟨value, -, hvisit⟩ := exists_of_bind_eq_ok hvisit
  split at hvisit
  · cases hvisit
  obtain ⟨api, hapi, hvisit⟩ := exists_of_bind_eq_ok hvisit
  dsimp only at hvisit
  split at hvisit
  · cases hvisit
  obtain ⟨groups, hgroups, hvisit⟩ := exists_of_bind_eq_ok hvisit
  obtain ⟨-, -, hvisit⟩ := exists_of_bind_eq_ok hvisit
  cases hvisit
  -- without the attribute there are no parts, and neither are there in an empty one
  have hparts : ((groups.elim [] commaParts).filter (· ≠ "")) = listedGroups (groups.getD "") := by
    cases groups with
    | none => rfl
    | some text => exact (listedGroups_eq text).symm
  rw [entryRemark, nameOf_of_required hname, attributeValue_of_attribute? hapi,
    attributeValue_of_attribute? hgroups]
  generalize name ++ api.getD "" = stored
  have hvalues := (foldl_addMember stored (listedGroups (groups.getD "")) g.registry).1
  refine ⟨?_, fun other => ?_⟩
  · rw [List.flatMap_append, List.flatMap_singleton, Remark.mentions, hparts]
    have hcollects := h.groups.foldl_addMember stored (listedGroups (groups.getD ""))
    unfold Registry.addEnumerant
    cases kind <;> exact hcollects
  · simp only [mem_valueNames_addEnumerant, hvalues, h.names, List.mem_append, List.mem_singleton,
      Remark.entry.injEq, exists_or]
    rw [or_comm]
    simp

theorem tells_block : Tells readBlock fun _ children =>
    (elementsNamed "enum" children).map fun (tag, _) => entryRemark tag := by
  constructor
  intro g g' said tag children hvisit h
  obtain ⟨kind, -, hvisit⟩ := exists_of_bind_eq_ok hvisit
  have hentries := (tells_entry kind).insideOnly hvisit h
  rwa [← List.map_eq_flatMap] at hentries

/-- The mention of a command says nothing about groups. -/
theorem tells_mention {add : Registry → String → Registry}
    (hadd : ∀ r name, (add r name).groups = r.groups ∧ (add r name).valueNames = r.valueNames) :
    Tells (readMention add) fun _ _ => [] := by
  constructor
  intro g g' said tag children hvisit h
  obtain ⟨name, -, hvisit⟩ := exists_of_bind_eq_ok hvisit
  obtain ⟨-, -, hvisit⟩ := exists_of_bind_eq_ok hvisit
  cases hvisit
  obtain ⟨hgroups, hnames⟩ := hadd g.registry name
  rw [List.append_nil]
  exact ⟨by rw [hgroups]; exact h.groups, by rw [hnames]; exact h.names⟩

theorem tells_extension : Tells readExtension fun _ _ => [] := by
  constructor
  intro g g' said tag children hvisit h
  obtain ⟨name, -, hvisit⟩ := exists_of_bind_eq_ok hvisit
  have hmention : Tells (readExtensionMention (.ofName name)) fun _ _ => [] :=
    tells_mention fun _ _ => ⟨rfl, rfl⟩
  have hrequire := silent_inside (silent_only hmention "command")
  exact (silent_only hrequire "require").insideSilent hvisit h

theorem tells_changes (family : ApiFamily) (version : Version) (change : Change) :
    Tells (readChanges family version change) fun _ _ => [] := by
  have hmention : Tells (readVersionMention ⟨change, family, version⟩) fun _ _ => [] :=
    tells_mention fun _ _ => ⟨rfl, rfl⟩
  exact silent_inside (silent_only hmention "command")

theorem tells_feature : Tells readFeature fun _ _ => [] := by
  constructor
  intro g g' said tag children hvisit h
  obtain ⟨api, -, hvisit⟩ := exists_of_bind_eq_ok hvisit
  split at hvisit
  · cases hvisit
  next family hfamily =>
  obtain ⟨number, -, hvisit⟩ := exists_of_bind_eq_ok hvisit
  split at hvisit
  · cases hvisit
  next version hversion =>
  refine Tells.insideSilent ?_ hvisit h
  constructor
  intro g g' said tag children hvisit h
  split at hvisit
  · exact (tells_changes family version .added).visited hvisit h
  · exact (tells_changes family version .removed).visited hvisit h
  · exact tells_ignored.visited hvisit h

theorem tells_command : Tells readCommand fun _ _ => [] := by
  constructor
  intro g g' said tag children hvisit h
  obtain ⟨command, -, hvisit⟩ := exists_of_bind_eq_ok hvisit
  split at hvisit
  · cases hvisit
  split at hvisit
  · cases hvisit
  cases hvisit
  rw [List.append_nil]
  exact ⟨h.groups, h.names⟩

theorem tells_section : Tells (fun g tag children =>
    match tag.localName with
    | "groups" => inside unheard (only "group" readGroup) g children
    | "enums" => readBlock g tag children
    | "extensions" => inside unheard (only "extension" readExtension) g children
    | "feature" => readFeature g tag children
    | "commands" => inside unheard (only "command" readCommand) g children
    | _ => ignored g tag children) sectionRemarks := by
  constructor
  intro g g' said tag children hvisit h
  unfold sectionRemarks
  split at hvisit
  · next hname =>
      rw [hname]
      exact tells_group.insideOnly hvisit h
  · next hname =>
      rw [hname]
      exact tells_block.visited hvisit h
  · next hname =>
      rw [hname]
      exact (silent_only tells_extension "extension").insideSilent hvisit h
  · next hname =>
      rw [hname]
      exact tells_feature.visited hvisit h
  · next hname =>
      rw [hname]
      exact (silent_only tells_command "command").insideSilent hvisit h
  · next hgroups henums _ _ _ =>
      split
      · next hname => exact absurd hname hgroups
      · next hname => exact absurd hname henums
      · exact tells_ignored.visited hvisit h

/-! ### Whole documents -/

/-- The trees of an accepted document can be read. -/
theorem readTrees_of_ofDocument {input : Bytes} {r : Registry} {document : List Node}
    (haccepted : Registry.ofDocument input = .ok r)
    (hevents : (Markup.transcribe input).events.map Prod.snd = eventsOf document) :
    readTrees document = .ok r := by
  obtain ⟨s, hrun, hwhole, -, -⟩ := run_of_ofDocument haccepted
  cases hread : readTrees document with
  | ok r' =>
      rw [ofDocument_of_readTrees hwhole hevents hread] at haccepted
      rw [Except.ok.inj haccepted]
  | error fault =>
      -- the loop would have met the fault too
      have hsteps := State.steps_of_run_ok hrun
      have hagree := agree_document document
      rw [hevents, State.steps_eventsOf] at hsteps
      change State.withDraft { } <$> walkAll .document { } document = .ok s at hsteps
      unfold readTrees at hread
      generalize walkAll .document { } document = walked at hsteps hagree
      generalize inside unheard readRoot { } document = read at hagree hread
      cases hagree with
      | ok h => cases hread
      | error fault => cases hsteps

/-- The groups of a document are those of its remarks, and its values are those
of the entries among them. -/
theorem reports_remarks {document : List Node} {r : Registry}
    (hread : readTrees document = .ok r) :
    Collects r.groups ((remarks document).flatMap Remark.mentions) ∧
      ∀ name, name ∈ r.valueNames ↔ ∃ parts, .entry name parts ∈ remarks document := by
  have hroot : Tells readRoot fun _ children =>
      (elements children).flatMap fun (tag, children) => sectionRemarks tag children :=
    ⟨fun hvisit h => tells_section.inside hvisit h⟩
  unfold readTrees at hread
  cases hinside : inside unheard readRoot { } document with
  | error fault =>
      rw [hinside] at hread
      cases hread
  | ok g =>
      rw [hinside] at hread
      cases hread
      have hreports := hroot.inside hinside reports_empty
      exact ⟨hreports.groups, hreports.names⟩

/-! ### Normal forms -/

/-- The groups of a registry are those that a document gives values to. -/
structure GroupsOf (said : List Remark) (r : Registry) : Prop where
  member : ∀ group member, (∃ members, (group, members) ∈ r.groupLists ∧ member ∈ members) ↔
    Belongs said group member
  group : ∀ group, group ∈ r.groupLists.map Prod.fst ↔ ∃ member, Belongs said group member
  order : r.groupLists = firstMentions said

theorem groupLists_of_collects {r : Registry} {mentions : List (String × Option String)}
    (h : Collects r.groups mentions) :
    r.groupLists = (mentions.map Prod.fst).eraseDups.map fun group =>
      (group, (mentions.filterMap (memberIn? group)).eraseDups) := by
  rw [← h.keys, List.map_map, Registry.groupLists]
  refine List.map_congr_left ?_
  rintro ⟨group, members⟩ hentry
  have hmembers := h.members group
  rw [OrderedMap.get?_of_mem hentry, Option.getD_some] at hmembers
  exact congrArg (group, ·) hmembers

theorem groupsOf_normalize {document : List Node} {r : Registry}
    (hread : readTrees document = .ok r) : GroupsOf (remarks document) r.normalize := by
  obtain ⟨hcollects, hnames⟩ := reports_remarks hread
  have horder : r.normalize.groupLists = firstMentions (remarks document) := by
    rw [Registry.groupLists_normalize, groupLists_of_collects hcollects, List.map_map]
    simp only [← mem_entryNames] at hnames
    simp only [hnames]
    rfl
  refine ⟨fun group member => ?_, fun group => ?_, horder⟩
  · rw [horder]
    exact exists_mem_firstMentions
  · simp only [horder, List.mem_map, Prod.exists, exists_and_right, exists_eq_right]
    constructor
    · rintro ⟨members, hmem⟩
      -- a group that is left has a member
      obtain ⟨hne, -⟩ := mem_firstMentions.mp hmem
      obtain ⟨member, hmember⟩ := List.exists_mem_of_ne_nil _ hne
      exact ⟨member, exists_mem_firstMentions.mp ⟨members, hmem, hmember⟩⟩
    · rintro ⟨member, hbelongs⟩
      obtain ⟨members, hmem, -⟩ := exists_mem_firstMentions.mpr hbelongs
      exact ⟨members, hmem⟩

end LazyGL.Reading
