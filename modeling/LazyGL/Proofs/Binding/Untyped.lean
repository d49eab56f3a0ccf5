import LazyGL.Proofs.Binding.Declarator
import LazyGL.Proofs.Reading.Declarations

/-!
Parameters of no type. Where a declaration names no type, the base type is
`void`, and that is no type of the target language: it stands for nothing, or
behind a pointer for memory that nothing is known of. Main statement: the word
itself is a type for one shape only, which a declaration has if there is an
element for the type with no text in it.
-/

namespace LazyGL.Binding

/-! ### Types without a name -/

/-- A type in which no base type is named. -/
inductive Target.Raw : Target → Prop
  | void : Raw .void
  | pointer (mutability : Mutability) : Raw (.pointer mutability .bytes)
  | pointerToPointer (outer inner : Mutability) : Raw (.pointerToPointer outer inner .bytes)
  | unverified : Raw (.unverified .bytes)

namespace Target

theorem Raw.text {target : Target} (h : target.Raw) :
    target.text = "()" ∨ ∃ front, target.text = front ++ "std::ffi::c_void" := by
  cases h with
  | void => exact .inl rfl
  | pointer mutability => exact .inr ⟨mutability.text ++ " ", rfl⟩
  | pointerToPointer outer inner => exact .inr ⟨outer.text ++ " " ++ inner.text ++ " ", rfl⟩
  | unverified => exact .inr ⟨"*mut ", rfl⟩

theorem raw_ofVoidShape? {text : String} {target : Target} (h : ofVoidShape? text = some target) :
    target.Raw := by
  unfold ofVoidShape? at h
  split at h
  · cases h; exact .void
  · cases h; exact .pointer _
  · cases h; exact .pointer _
  · cases h; exact .pointerToPointer _ _
  · cases h; exact .pointerToPointer _ _
  · cases h; exact .pointerToPointer _ _
  · cases h; exact .pointerToPointer _ _
  · cases h

/-- Only a value of the base type has its name. -/
theorem raw_target_void {d : Declarator} (h : d.form ≠ .value) : (d.target "void").Raw := by
  obtain ⟨constant, form⟩ := d
  cases form with
  | value => exact absurd rfl h
  | pointer => exact .pointer _
  | pointerToPointer between => exact .pointerToPointer _ _
  | array dimension => exact .pointer _

theorem raw_ofShape_void {text : String} (h : text ≠ "!?") : (ofShape "void" text).Raw := by
  cases hguess : (ofShape "void" text).isUnverified with
  | true =>
      rw [Declarator.ofShape_of_isUnverified hguess]
      exact .unverified
  | false =>
      obtain ⟨d, htyped, rfl⟩ := Declarator.exists_of_ofShape hguess
      rw [Declarator.ofShape_shape htyped]
      refine raw_target_void fun hvalue => ?_
      have hconstant : d.constant = false := by
        rw [← Bool.not_eq_true]
        exact fun hconstant => htyped hconstant hvalue
      refine h ?_
      rw [Declarator.shape, hconstant, hvalue]
      rfl

theorem raw_ofParam_void_iff (text : String) : (ofParam "void" text).Raw ↔ text ≠ "!?" := by
  constructor
  · rintro h rfl
    cases h
  · intro h
    rw [ofParam, if_pos rfl]
    cases hvoid : ofVoidShape? text with
    | none => exact raw_ofShape_void h
    | some target => exact raw_ofVoidShape? hvoid

end Target

/-! ### Declarations without a type -/

open Reading

/-- No element for the type has a text in it. -/
def Untyped (found : List (Markup.Tag × List Reading.Node)) : Prop :=
  ∀ element ∈ found, element.1.localName = "ptype" → directText element.2 = .ok ""

theorem base_readParam {tag : Markup.Tag} {children : List Reading.Node} {p : Param}
    (h : readParam tag children = .ok p) (huntyped : Untyped (elements children)) :
    p.base = "void" := by
  obtain ⟨group, -, h⟩ := exists_of_bind_eq_ok h
  obtain ⟨length, -, h⟩ := exists_of_bind_eq_ok h
  obtain ⟨last, hinside, h⟩ := exists_of_bind_eq_ok h
  have hbase : Untyped ([] ++ elements children) → last.base = "" := by
    refine inside_induction (P := fun done p => Untyped done → p.base = "") [] ?_ ?_ hinside
      fun _ => rfl
    · exact fun _ _ _ hp => hp
    · intro done p p' tag children hvisit hp hdone
      rw [Untyped, List.forall_mem_append, List.forall_mem_singleton] at hdone
      have hp := hp hdone.1
      split at hvisit
      · next hname =>
          rw [hdone.2 hname] at hvisit
          cases hvisit
          rw [hp]
          rfl
      · obtain ⟨text, -, hvisit⟩ := exists_of_bind_eq_ok hvisit
        cases hvisit
        exact hp
      · obtain ⟨-, -, hvisit⟩ := exists_of_bind_eq_ok hvisit
        cases hvisit
        exact hp
  rw [hbase huntyped] at h
  split at h
  · cases h
  · cases h
    rfl

/-- A parameter of no type is nothing or points to memory that nothing is known of,
so its type is not the word for no type, unless its shape is that of a value. This
holds for all parameters that a document declares without the text of a type. -/
theorem raw_ofParam_void (text : String) :
    ((Target.ofParam "void" text).Raw ↔ text ≠ "!?") ∧
      (text ≠ "!?" → (Target.ofParam "void" text).text = "()" ∨
        ∃ front, (Target.ofParam "void" text).text = front ++ "std::ffi::c_void") ∧
      ∀ (input : Bytes) (r : Registry), Registry.ofDocument input = .ok r →
        (∃ document, (Markup.transcribe input).events.map Prod.snd = eventsOf document) ∧
          ∀ document, (Markup.transcribe input).events.map Prod.snd = eventsOf document →
            List.Forall₂ (fun element c =>
                List.Forall₂ (fun param p => Untyped (elements param.2) →
                    p.base = "void" ∧ (p.shape ≠ "!?" → (Target.ofParam p.base p.shape).Raw))
                  (elementsNamed "param" element.2) c.params)
              (commandElements document) r.commands := by
  have hraw := Target.raw_ofParam_void_iff text
  refine ⟨hraw, fun htext => (hraw.mpr htext).text, fun input r haccepted => ?_⟩
  refine ⟨exists_eventsOf haccepted, fun document hevents => ?_⟩
  have hdeclares := declares_readTrees (readTrees_of_ofDocument haccepted hevents)
  refine hdeclares.imp fun element c hparams => hparams.imp fun param p hread huntyped => ?_
  have hbase := base_readParam hread huntyped
  rw [hbase]
  exact ⟨rfl, (Target.raw_ofParam_void_iff p.shape).mpr⟩

theorem raw_ofParam_void_pointer :
    let input := Utf8.ofString ("<r><commands><command><proto><name>f</name></proto>" ++
      "<param>const void *<name>p</name></param></command></commands></r>")
    let p : Param := { name := "p", base := "void", shape := "constvoid*?" }
    Registry.ofDocument input = .ok { commands := [⟨"f", "", [p]⟩] } ∧
      p.base = "void" ∧ p.shape ≠ "!?" ∧ (Target.ofParam p.base p.shape).Raw := by
  intro input p
  let leaf (name text : String) : Reading.Node :=
    .element ⟨Utf8.ofString name⟩ [.text (Utf8.ofString text)] (Utf8.ofString name)
  let param : List Reading.Node := [.text (Utf8.ofString "const void *"), leaf "name" "p"]
  let command : List Reading.Node :=
    [.element ⟨Utf8.ofString "proto"⟩ [leaf "name" "f"] (Utf8.ofString "proto"),
      .element ⟨Utf8.ofString "param"⟩ param (Utf8.ofString "param")]
  let document : List Reading.Node :=
    [.element ⟨Utf8.ofString "r"⟩
      [.element ⟨Utf8.ofString "commands"⟩
        [.element ⟨Utf8.ofString "command"⟩ command (Utf8.ofString "command")]
        (Utf8.ofString "commands")] (Utf8.ofString "r")]
  obtain ⟨hwhole, hevents⟩ : (Markup.transcribe input).fault = none ∧
      (Markup.transcribe input).events.map Prod.snd = eventsOf document := by decide +kernel
  have haccepted : Registry.ofDocument input = .ok { commands := [⟨"f", "", [p]⟩] } :=
    ofDocument_of_readTrees hwhole hevents (by decide +kernel)
  have hcommands : commandElements document = [(⟨Utf8.ofString "command"⟩, command)] := rfl
  have hparams : elementsNamed "param" command = [(⟨Utf8.ofString "param"⟩, param)] := rfl
  have huntyped : Untyped (elements param) :=
    List.forall_mem_singleton.mpr fun hname => absurd hname (by decide +kernel)
  have hdocument := ((raw_ofParam_void p.shape).2.2 input _ haccepted).2 document hevents
  rw [hcommands, List.forall₂_cons] at hdocument
  have hparam := hdocument.1
  rw [hparams, List.forall₂_cons] at hparam
  obtain ⟨hbase, hraw⟩ := hparam.1 huntyped
  exact ⟨haccepted, hbase, by decide, hraw (by decide)⟩

/-- A parameter with an empty element for its type has the word for no type as its
type. -/
theorem ofParam_void_value :
    let input := Utf8.ofString ("<r><commands><command><proto><name>f</name></proto>" ++
      "<param><ptype/><name>p</name></param></command></commands></r>")
    let p : Param := { name := "p", base := "void", shape := "!?" }
    Registry.ofDocument input = .ok { commands := [⟨"f", "", [p]⟩] } ∧
      (Target.ofParam p.base p.shape).text = "void" ∧
      ¬∀ text, (Target.ofParam "void" text).Raw := by
  intro input p
  let name (text : String) : Reading.Node :=
    .element ⟨Utf8.ofString "name"⟩ [.text (Utf8.ofString text)] (Utf8.ofString "name")
  let document : List Reading.Node :=
    [.element ⟨Utf8.ofString "r"⟩
      [.element ⟨Utf8.ofString "commands"⟩
        [.element ⟨Utf8.ofString "command"⟩
          [.element ⟨Utf8.ofString "proto"⟩ [name "f"] (Utf8.ofString "proto"),
            .element ⟨Utf8.ofString "param"⟩ [.closed ⟨Utf8.ofString "ptype"⟩, name "p"]
              (Utf8.ofString "param")] (Utf8.ofString "command")]
        (Utf8.ofString "commands")] (Utf8.ofString "r")]
  obtain ⟨hwhole, hevents⟩ : (Markup.transcribe input).fault = none ∧
      (Markup.transcribe input).events.map Prod.snd = eventsOf document := by decide +kernel
  have haccepted : Registry.ofDocument input = .ok { commands := [⟨"f", "", [p]⟩] } :=
    ofDocument_of_readTrees hwhole hevents (by decide +kernel)
  refine ⟨haccepted, by decide, fun hraw => ?_⟩
  have hvalue : (Target.value "void").Raw := hraw "!?"
  cases hvalue

end LazyGL.Binding
