import LazyGL.Proofs.Reading.Nesting
import LazyGL.Proofs.Reading.Agreement
import LazyGL.Proofs.Text.Blank

/-!
Drafts that are alike. The return type of an open command is kept as it has been
written and collapsed when the command ends, so until then two drafts may differ
in the blanks of it. Every event keeps drafts alike, and it is refused in both
or in neither.
-/

namespace LazyGL.Reading

open Markup (Event Tag)

/-- Texts that have the same words, whatever is appended to them. -/
def SameWords (text text' : String) : Prop :=
  ∀ more, Blank.collapse (text ++ more) = Blank.collapse (text' ++ more)

namespace SameWords

variable {text text' : String}

theorem refl (text : String) : SameWords text text := fun _ => rfl

theorem append (h : SameWords text text') (more : String) :
    SameWords (text ++ more) (text' ++ more) := by
  intro rest
  rw [String.append_assoc, String.append_assoc]
  exact h (more ++ rest)

theorem collapse_eq (h : SameWords text text') : Blank.collapse text = Blank.collapse text' := by
  have hnone := h ""
  rwa [String.append_empty, String.append_empty] at hnone

end SameWords

def BlankRun (text : String) : Prop := text ≠ "" ∧ ∀ c ∈ text.toList, Blank.isBlank c = true

/-- In front of a text and behind another one a run of blanks can be replaced by
another run. -/
theorem SameWords.of_blankRun {blanks blanks' : String} (h : BlankRun blanks)
    (h' : BlankRun blanks') (front back : String) :
    SameWords (front ++ blanks ++ back) (front ++ blanks' ++ back) := by
  intro more
  have hwords {blanks : String} (h : BlankRun blanks) :
      Blank.words (front ++ blanks ++ back ++ more).toList =
        Blank.words front.toList ++ Blank.words (back.toList ++ more.toList) := by
    have hne : blanks.toList ≠ [] := by simpa using h.1
    rw [String.toList_append, String.toList_append, String.toList_append, List.append_assoc,
      List.append_assoc]
    exact Blank.words_append_blanks _ _ hne h.2
  rw [Blank.collapse, Blank.collapse, hwords h, hwords h']

/-- Texts that are as good as each other directly inside an element. Blanks do
not matter to a parameter, and how many there are in a row does not matter to a
return type. -/
inductive Interchangeable : Scope → String → String → Prop
  | same (scope : Scope) (text : String) : Interchangeable scope text text
  | param {text text' : String} (h : Blank.strip text = Blank.strip text') :
      Interchangeable .param text text'
  | proto {blanks blanks' : String} (h : BlankRun blanks) (h' : BlankRun blanks')
      (front back : String) :
      Interchangeable .proto (front ++ blanks ++ back) (front ++ blanks' ++ back)
  | protoType {blanks blanks' : String} (h : BlankRun blanks) (h' : BlankRun blanks')
      (front back : String) :
      Interchangeable .protoType (front ++ blanks ++ back) (front ++ blanks' ++ back)

/-- Drafts that differ in the blanks of the open command's return type only. -/
inductive Draft.Alike (d : Draft) : Draft → Prop
  | closed (hc : d.command = none) : d.Alike d
  | opened {c : Command} (hc : d.command = some c) {returnType : String}
      (h : SameWords c.returnType returnType) :
      d.Alike { d with command := some { c with returnType := returnType } }

namespace Draft.Alike

variable {d d' : Draft} {scope : Scope}

theorem refl (d : Draft) : d.Alike d := by
  cases hc : d.command with
  | none => exact .closed hc
  | some c =>
      have hopened := opened hc (.refl c.returnType)
      rwa [show { d with command := some { c with returnType := c.returnType } } = d by
        rw [← hc]] at hopened

theorem registry (h : d.Alike d') : d'.registry = d.registry := by
  cases h <;> rfl

/-- No element looks at the command that is open when it begins. -/
theorem enter (h : d.Alike d') (scope : Scope) (tag : Tag) :
    Agree Draft.Alike (d.enter scope tag) (d'.enter scope tag) := by
  cases h with
  | closed hc => exact Agree.refl refl _
  | @opened c hc returnType h =>
      have hopen (e : Draft) (he : e.command = d.command) :
          e.Alike { e with command := some { c with returnType := returnType } } :=
        opened (he.trans hc) h
      cases scope with
      | group =>
          refine Agree.bind_same fun name => ?_
          exact Agree.ite (fun _ => .error _) fun _ => .ok (hopen _ rfl)
      | groupMember =>
          refine Agree.bind_same fun member => ?_
          dsimp only
          cases d.group with
          | none => exact .error _
          | some group => exact .ok (hopen _ rfl)
      | enumBlock => exact Agree.bind_same fun kind => .ok (hopen _ rfl)
      | enumEntry =>
          simp only [Draft.enter, Draft.enterEntry]
          cases d.blockKind with
          | none => exact .error _
          | some kind =>
              refine Agree.bind_same fun name => Agree.bind_same fun value => ?_
              refine Agree.ite (fun _ => .error _) fun _ => Agree.bind_same fun api => ?_
              refine Agree.ite (fun _ => .error _) fun _ => Agree.bind_same fun groups => ?_
              exact .ok (hopen _ rfl)
      | extension => exact Agree.bind_same fun name => .ok (hopen _ rfl)
      | extensionCommand =>
          refine Agree.bind_same fun name => ?_
          dsimp only
          cases d.extension with
          | none => exact .error _
          | some extension => exact .ok (hopen _ rfl)
      | feature =>
          refine Agree.bind_same fun api => ?_
          cases ApiFamily.ofName? api with
          | none => exact .error _
          | some family =>
              refine Agree.bind_same fun number => ?_
              cases Version.ofString number with
              | error fault => exact .error _
              | ok version => exact .ok (hopen _ rfl)
      | featureCommand change =>
          refine Agree.bind_same fun name => ?_
          dsimp only
          cases d.feature with
          | none => exact .error _
          | some feature => exact .ok (hopen _ rfl)
      | command => exact .ok (refl _)
      | param =>
          exact Agree.bind_same fun group => Agree.bind_same fun length => .ok (hopen _ rfl)
      | _ => exact .ok (hopen _ rfl)

theorem changeCommand (h : d.Alike d') {f g : Command → Command}
    (hfg : ∀ c returnType, SameWords c.returnType returnType →
      ∃ more, SameWords (f c).returnType more ∧
        g { c with returnType := returnType } = { f c with returnType := more }) :
    Agree Draft.Alike (d.changeCommand f) (d'.changeCommand g) := by
  cases h with
  | closed hc =>
      simp only [Draft.changeCommand, hc]
      exact .error _
  | @opened c hc returnType h =>
      obtain ⟨more, hmore, hg⟩ := hfg c returnType h
      simp only [Draft.changeCommand, hc, hg]
      exact .ok (opened (d := { d with command := some (f c) }) rfl hmore)

theorem changeParam (h : d.Alike d') (f : Param → Param) :
    Agree Draft.Alike (d.changeParam f) (d'.changeParam f) := by
  cases h with
  | closed hc => exact Agree.refl refl _
  | @opened c hc returnType h =>
      simp only [Draft.changeParam]
      cases d.param with
      | none => exact .error _
      | some p => exact .ok (opened (by exact hc) h)

theorem leaveParam (h : d.Alike d') : Agree Draft.Alike d.leaveParam d'.leaveParam := by
  cases h with
  | closed hc => exact Agree.refl refl _
  | @opened c hc returnType h =>
      simp only [Draft.leaveParam]
      cases d.param with
      | none => exact .error _
      | some p =>
          refine Agree.ite (fun _ => .error _) fun _ => ?_
          have hopened : Draft.Alike { d with param := none } { d with
              param := none
              command := some { c with returnType := returnType } } :=
            opened (d := { d with param := none }) hc h
          exact hopened.changeCommand fun _ returnType h => ⟨returnType, h, rfl⟩

/-- What becomes of the return type in the end is the same in both drafts. -/
theorem leaveCommand (h : d.Alike d') : Agree Draft.Alike d.leaveCommand d'.leaveCommand := by
  cases h with
  | closed hc => exact Agree.refl refl _
  | @opened c hc returnType h =>
      simp only [Draft.leaveCommand, hc, ← h.collapse_eq]
      refine Agree.ite (fun _ => .error _) fun _ => ?_
      exact Agree.ite (fun _ => .error _) fun _ => .ok (refl _)

theorem leave (h : d.Alike d') (scope : Scope) :
    Agree Draft.Alike (d.leave scope) (d'.leave scope) := by
  cases scope with
  | paramType => exact h.changeParam _
  | paramName => exact h.changeParam _
  | param => exact h.leaveParam
  | command => exact h.leaveCommand
  | group | enumBlock | extension | feature =>
      cases h with
      | closed hc => exact .ok (refl _)
      | opened hc h => exact .ok (opened (by exact hc) h)
  | _ => exact .ok h

/-- A text of the return type goes behind what there is of it in either draft. -/
theorem sayReturnType (h : d.Alike d') {text text' : String}
    (htext : ∀ front, SameWords (front ++ text) (front ++ text')) :
    Agree Draft.Alike (d.changeCommand fun c => { c with returnType := c.returnType ++ text })
      (d'.changeCommand fun c => { c with returnType := c.returnType ++ text' }) := by
  refine h.changeCommand fun c returnType h => ⟨returnType ++ text', ?_, rfl⟩
  exact fun more => (h.append text more).trans (htext returnType more)

theorem say (h : d.Alike d') {text text' : String} (htext : Interchangeable scope text text') :
    Agree Draft.Alike (d.say scope text) (d'.say scope text') := by
  have hproto {blanks blanks' : String} (hb : BlankRun blanks) (hb' : BlankRun blanks')
      (front back before : String) : SameWords (before ++ (front ++ blanks ++ back))
        (before ++ (front ++ blanks' ++ back)) := by
    have hwords := SameWords.of_blankRun hb hb' (before ++ front) back
    simpa only [String.append_assoc] using hwords
  cases htext with
  | param hstrip =>
      simp only [Draft.say, hstrip]
      exact h.changeParam _
  | proto hb hb' front back => exact h.sayReturnType (hproto hb hb' front back)
  | protoType hb hb' front back => exact h.sayReturnType (hproto hb hb' front back)
  | same =>
      cases scope with
      | proto => exact h.sayReturnType fun front => .refl _
      | protoType => exact h.sayReturnType fun front => .refl _
      | protoName => exact h.changeCommand fun c returnType h => ⟨returnType, h, rfl⟩
      | param => exact h.changeParam _
      | paramType => exact h.changeParam _
      | paramName => exact h.changeParam _
      | _ => exact .ok h

end Draft.Alike

/-! ### Runs -/

structure State.Alike (s s' : State) : Prop where
  scopes : s'.scopes = s.scopes
  draft : s.draft.Alike s'.draft

namespace State.Alike

variable {s s' : State}

theorem refl (s : State) : s.Alike s := ⟨rfl, .refl s.draft⟩

theorem top (h : s.Alike s') : s'.top = s.top := by
  rw [State.top, State.top, h.scopes]

theorem withDraft (h : s.Alike s') {d d' : Draft} (hd : d.Alike d') :
    (s.withDraft d).Alike (s'.withDraft d') :=
  ⟨h.scopes, hd⟩

theorem step (h : s.Alike s') (event : Event) :
    Agree State.Alike (s.step event) (s'.step event) := by
  cases event with
  | start tag =>
      rw [State.step, State.step, h.top, h.scopes]
      exact (h.draft.enter _ tag).bind fun d d' hd => .ok ⟨rfl, hd⟩
  | empty tag =>
      rw [State.step, State.step, h.top, h.scopes]
      refine (h.draft.enter _ tag).bind fun d d' hd => ?_
      exact (hd.leave _).bind fun d d' hd => .ok ⟨rfl, hd⟩
  | stop content =>
      rw [State.step, State.step, h.top, h.scopes]
      refine Agree.ite (fun _ => .error _) fun _ => ?_
      exact (h.draft.leave _).bind fun d d' hd => .ok ⟨rfl, hd⟩
  | text raw =>
      rw [State.step, State.step, h.top, h.scopes]
      cases Markup.meaning raw with
      | error fault => exact .error _
      | ok text => exact (h.draft.say (.same _ text)).bind fun d d' hd => .ok ⟨rfl, hd⟩
  | cdata raw =>
      rw [State.step, State.step, h.top, h.scopes]
      cases Utf8.decode raw with
      | error fault => exact .error _
      | ok chars => exact (h.draft.say (.same _ _)).bind fun d d' hd => .ok ⟨rfl, hd⟩
  | comment body => exact .ok h
  | instruction body => exact .ok h
  | doctype body => exact .ok h

theorem steps (h : s.Alike s') (events : List Event) :
    Agree State.Alike (s.steps events) (s'.steps events) := by
  induction events generalizing s s' with
  | nil => exact .ok h
  | cons event events ih =>
      rw [State.steps_cons, State.steps_cons]
      exact (h.step event).bind fun _ _ h => ih h

end State.Alike

end LazyGL.Reading
