import Mathlib.Data.List.Forall2
import LazyGL.Proofs.Reading.Sections

/-!
Where commands and parameters come from. Some elements of a document add to a
list of what has been read, all others leave the list alone, and so the list is
in the end one of those elements, one by one and in document order. Main
statement: the commands of a registry are its command elements, wherever they
stand among the sections, and the parameters of each are the elements for
parameters inside.
-/

namespace LazyGL.Reading

/-! ### Children one after the other -/

/-- What is kept at every text and at every element is true in the end, of all
elements that have been read. -/
theorem inside_induction {α : Type} {hear : α → String → α} {visit : Visit α}
    {P : List (Markup.Tag × List Node) → α → Prop} (done : List (Markup.Tag × List Node))
    (hhear : ∀ done a text, P done a → P done (hear a text))
    (hvisit : ∀ done a a' tag children, visit a tag children = .ok a' → P done a →
      P (done ++ [(tag, children)]) a')
    {a a' : α} {nodes : List Node}
    (hread : inside hear visit a nodes = .ok a') (h : P done a) :
    P (done ++ elements nodes) a' := by
  induction nodes generalizing done a with
  | nil =>
      cases hread
      rwa [elements, List.append_nil]
  | cons node nodes ih =>
      rw [inside, List.foldlM_cons] at hread
      obtain ⟨middle, hnode, hrest⟩ := exists_of_bind_eq_ok hread
      have hheard {text : Except Fault String} (htext : text.map (hear a) = .ok middle) :
          P done middle := by
        cases text with
        | error fault => cases htext
        | ok text =>
            rw [← Except.ok.inj htext]
            exact hhear done a text h
      have hvisited {tag : Markup.Tag} {children : List Node}
          (hnode : visit a tag children = .ok middle) :
          P (done ++ (tag, children) :: elements nodes) a' := by
        have hrest := ih _ hrest (hvisit done a middle tag children hnode h)
        rwa [List.append_assoc] at hrest
      cases node with
      | element tag children ending => exact hvisited hnode
      | closed tag => exact hvisited hnode
      | text raw => exact ih done hrest (hheard hnode)
      | cdata raw => exact ih done hrest (hheard hnode)
      | comment body => cases hnode; exact ih done hrest h
      | instruction body => cases hnode; exact ih done hrest h
      | doctype body => cases hnode; exact ih done hrest h

/-! ### Lists that grow -/

/-- A visit adds to a list what some elements are worth, which depend on the tag
and the children, and takes nothing away. -/
structure Adds {α β : Type} (worth : Markup.Tag × List Node → β → Prop) (list : α → List β)
    (visit : Visit α) (sources : Markup.Tag → List Node → List (Markup.Tag × List Node)) :
    Prop where
  visited : ∀ {a a' : α} {tag : Markup.Tag} {children : List Node},
    visit a tag children = .ok a' →
      ∃ more, list a' = list a ++ more ∧ List.Forall₂ worth (sources tag children) more

section Adds

variable {α β : Type} {worth : Markup.Tag × List Node → β → Prop} {list : α → List β}
  {visit : Visit α} {sources : Markup.Tag → List Node → List (Markup.Tag × List Node)}

theorem adds_nothing (h : ∀ {a a' : α} {tag : Markup.Tag} {children : List Node},
    visit a tag children = .ok a' → list a' = list a) :
    Adds worth list visit fun _ _ => [] :=
  ⟨fun hvisit => ⟨[], by rw [h hvisit, List.append_nil], .nil⟩⟩

theorem adds_ignored : Adds worth list ignored fun _ _ => [] := by
  refine adds_nothing fun hvisit => ?_
  obtain ⟨-, -, hvisit⟩ := exists_of_bind_eq_ok hvisit
  cases hvisit
  rfl

/-- Inside an element all that is added comes from the elements there. -/
theorem Adds.inside {hear : α → String → α} (h : Adds worth list visit sources)
    (hhear : ∀ a text, list (hear a text) = list a) {a a' : α} {nodes : List Node}
    (hread : inside hear visit a nodes = .ok a') :
    ∃ more, list a' = list a ++ more ∧
      List.Forall₂ worth ((elements nodes).flatMap fun (tag, children) => sources tag children)
        more := by
  refine inside_induction (P := fun done now => ∃ more, list now = list a ++ more ∧
      List.Forall₂ worth (done.flatMap fun (tag, children) => sources tag children) more)
    [] ?_ ?_ hread ⟨[], (List.append_nil _).symm, .nil⟩
  · rintro done now text ⟨more, hlist, hworth⟩
    exact ⟨more, (hhear now text).trans hlist, hworth⟩
  · rintro done now next tag children hvisit ⟨more, hlist, hworth⟩
    obtain ⟨new, hnew, hsources⟩ := h.visited hvisit
    refine ⟨more ++ new, by rw [hnew, hlist, List.append_assoc], ?_⟩
    rw [List.flatMap_append, List.flatMap_singleton]
    exact List.rel_append hworth hsources

theorem Adds.only (h : Adds worth list visit sources) (name : String) :
    Adds worth list (only name visit) fun tag children =>
      if tag.localName = name then sources tag children else [] := by
  constructor
  intro a a' tag children hvisit
  unfold LazyGL.Reading.only at hvisit
  by_cases hname : tag.localName = name
  · rw [if_pos hname] at hvisit ⊢
    exact h.visited hvisit
  · rw [if_neg hname] at hvisit ⊢
    exact adds_ignored.visited hvisit

/-- Inside an element where only those of one name have a meaning, all that is
added comes from these. -/
theorem Adds.insideOnly {hear : α → String → α} (h : Adds worth list visit sources)
    (hhear : ∀ a text, list (hear a text) = list a) {name : String} {a a' : α}
    {nodes : List Node}
    (hread : LazyGL.Reading.inside hear (LazyGL.Reading.only name visit) a nodes = .ok a') :
    ∃ more, list a' = list a ++ more ∧
      List.Forall₂ worth
        ((elementsNamed name nodes).flatMap fun (tag, children) => sources tag children) more := by
  rw [flatMap_elementsNamed]
  exact (h.only name).inside hhear hread

end Adds

/-! ### Parameters -/

/-- The return type and the name of a command are no parameters. -/
theorem adds_proto : Adds (fun _ (_ : Param) => False) Command.params
    (fun c tag children =>
      match tag.localName with
      | "ptype" => do
        let text ← directText children
        return { c with returnType := c.returnType ++ text }
      | "name" => do
        let text ← directText children
        return { c with name := c.name ++ text }
      | _ => ignored c tag children) fun _ _ => [] := by
  refine adds_nothing fun hvisit => ?_
  split at hvisit
  · obtain ⟨text, -, hvisit⟩ := exists_of_bind_eq_ok hvisit
    cases hvisit
    rfl
  · obtain ⟨text, -, hvisit⟩ := exists_of_bind_eq_ok hvisit
    cases hvisit
    rfl
  · obtain ⟨-, -, hvisit⟩ := exists_of_bind_eq_ok hvisit
    cases hvisit
    rfl

theorem params_readProto {c c' : Command} {children : List Node}
    (h : readProto c children = .ok c') : c'.params = c.params := by
  obtain ⟨more, hparams, hmore⟩ := adds_proto.inside (by exact fun _ _ => rfl) h
  rw [List.flatMap_eq_nil_iff.mpr fun _ _ => rfl] at hmore
  cases hmore
  rw [hparams, List.append_nil]

theorem adds_param : Adds (fun param p => readParam param.1 param.2 = .ok p) Command.params
    (fun c tag children =>
      match tag.localName with
      | "proto" => readProto c children
      | "param" => do
        let param ← readParam tag children
        return { c with params := c.params ++ [param] }
      | _ => ignored c tag children)
    fun tag children => if tag.localName = "param" then [(tag, children)] else [] := by
  constructor
  intro c c' tag children hvisit
  split at hvisit
  · next hname =>
      rw [hname, params_readProto hvisit]
      exact ⟨[], (List.append_nil _).symm, .nil⟩
  · next hname =>
      obtain ⟨param, hparam, hvisit⟩ := exists_of_bind_eq_ok hvisit
      cases hvisit
      rw [hname]
      exact ⟨[param], rfl, .cons hparam .nil⟩
  · next hproto hparam =>
      rw [if_neg hparam]
      exact adds_ignored.visited hvisit

def Declares (element : Markup.Tag × List Node) (c : Command) : Prop :=
  List.Forall₂ (fun param p => readParam param.1 param.2 = .ok p) (elementsNamed "param" element.2)
    c.params

theorem declares_readDeclaration {tag : Markup.Tag} {children : List Node} {c : Command}
    (h : readDeclaration children = .ok c) : Declares (tag, children) c := by
  obtain ⟨more, hparams, hmore⟩ := adds_param.inside (fun _ _ => rfl) h
  have hsources := flatMap_elementsNamed "param" children fun tag children => [(tag, children)]
  rw [← List.map_eq_flatMap, List.map_id'] at hsources
  rw [← hsources] at hmore
  rw [List.nil_append] at hparams
  rw [Declares, hparams]
  exact hmore

/-! ### Commands -/

theorem adds_command : Adds Declares (fun g : Digest => g.registry.commands) readCommand
    fun tag children => [(tag, children)] := by
  constructor
  intro g g' tag children hvisit
  obtain ⟨command, hcommand, hvisit⟩ := exists_of_bind_eq_ok hvisit
  split at hvisit
  · cases hvisit
  split at hvisit
  · cases hvisit
  cases hvisit
  have hdeclares : Declares (tag, children) command := declares_readDeclaration hcommand
  exact ⟨[{ command with returnType := Blank.collapse command.returnType }], rfl,
    .cons hdeclares .nil⟩

/-- A section that writes another part leaves the commands alone. -/
theorem commands_readSection {g g' : Digest} {tag : Markup.Tag} {children : List Node}
    (hname : tag.localName ≠ "commands") (h : readSection g tag children = .ok g') :
    g'.registry.commands = g.registry.commands := by
  cases hpart : Part.ofName? tag.localName with
  | none =>
      rw [readSection_of_none hpart] at h
      obtain ⟨-, -, h⟩ := exists_of_bind_eq_ok h
      cases h
      rfl
  | some part =>
      have hother : part ≠ .commands := by
        rintro rfl
        unfold Part.ofName? at hpart
        split at hpart
        case h_3 hcommands => exact hname hcommands
        all_goals cases hpart
      have hframe := confined_section hpart g g children
      rw [Digest.withPart_self, h] at hframe
      obtain ⟨hwithin⟩ := hframe
      rw [show g' = g.withPart part g' from hwithin]
      cases part with
      | commands => exact absurd rfl hother
      | definitions => rfl
      | versions => rfl
      | extensions => rfl

theorem adds_section : Adds Declares (fun g : Digest => g.registry.commands) readSection
    fun tag children =>
      if tag.localName = "commands" then elementsNamed "command" children else [] := by
  constructor
  intro g g' tag children hvisit
  by_cases hname : tag.localName = "commands"
  · rw [if_pos hname]
    unfold readSection at hvisit
    rw [hname] at hvisit
    obtain ⟨more, hcommands, hmore⟩ := adds_command.insideOnly (fun _ _ => rfl) hvisit
    rw [← List.map_eq_flatMap, List.map_id'] at hmore
    exact ⟨more, hcommands, hmore⟩
  · rw [if_neg hname]
    exact ⟨[], by rw [commands_readSection hname hvisit, List.append_nil], .nil⟩

def commandElements (document : List Node) : List (Markup.Tag × List Node) :=
  (elements document).flatMap fun (_, root) =>
    (elementsNamed "commands" root).flatMap fun (_, commands) => elementsNamed "command" commands

/-- The commands of a registry are those that a document declares, in document
order, with the parameters that are declared there, in the same order. -/
theorem declares_readTrees {document : List Node} {r : Registry}
    (h : readTrees document = .ok r) :
    List.Forall₂ Declares (commandElements document) r.commands := by
  have hroot : Adds Declares (fun g : Digest => g.registry.commands) readRoot
      fun _ children => (elementsNamed "commands" children).flatMap fun (_, commands) =>
        elementsNamed "command" commands := by
    constructor
    intro g g' tag children hvisit
    have hsources := flatMap_elementsNamed "commands" children fun _ commands =>
      elementsNamed "command" commands
    obtain ⟨more, hcommands, hmore⟩ := adds_section.inside (fun _ _ => rfl) hvisit
    exact ⟨more, hcommands, (congrArg (List.Forall₂ Declares · more) hsources).mpr hmore⟩
  unfold readTrees at h
  cases hread : inside unheard readRoot { } document with
  | error fault =>
      rw [hread] at h
      cases h
  | ok g =>
      rw [hread] at h
      cases h
      obtain ⟨more, hcommands, hmore⟩ := hroot.inside (fun _ _ => rfl) hread
      rw [hcommands]
      exact hmore

end LazyGL.Reading
