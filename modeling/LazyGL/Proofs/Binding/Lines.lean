import LazyGL.Proofs.Binding.Script
import LazyGL.Text.Front

/-!
The lines of a text. An artifact whose lines have no line breaks in them is
read back line by line, with an empty line after its end. A line of a known
form is read back as what stands between its front and its back.
-/

namespace LazyGL.Binding

/-- The lines of a text, without the breaks between them. -/
def textLines (text : String) : List String :=
  (text.toList.splitOn '\n').map String.ofList

def OneLine (text : String) : Prop := '\n' ∉ text.toList

instance (text : String) : Decidable (OneLine text) :=
  inferInstanceAs (Decidable ('\n' ∉ text.toList))

/-- A literal is looked at character by character here, so that its bytes need
not be decoded. -/
theorem oneLine_literal {chars : List Char} (h : '\n' ∉ chars := by decide) :
    OneLine (String.ofList chars) := by
  rwa [OneLine, String.toList_ofList]

@[simp] theorem oneLine_append {s t : String} : OneLine (s ++ t) ↔ OneLine s ∧ OneLine t := by
  simp [OneLine]

theorem oneLine_intercalate {separator : String} (hseparator : OneLine separator)
    {parts : List String} (hparts : ∀ part ∈ parts, OneLine part) :
    OneLine (separator.intercalate parts) := by
  induction parts with
  | nil => simp [OneLine]
  | cons part parts ih =>
      obtain ⟨hpart, hparts⟩ := List.forall_mem_cons.mp hparts
      cases parts with
      | nil => simpa using hpart
      | cons next parts =>
          rw [String.intercalate_cons_cons, oneLine_append, oneLine_append]
          exact ⟨⟨hpart, hseparator⟩, ih hparts⟩

theorem textLines_of_oneLine {line : String} (h : OneLine line) : textLines line = [line] := by
  rw [textLines, List.splitOn_eq_singleton h, List.map_singleton, String.ofList_toList]

theorem flatMap_textLines {lines : List String} (h : ∀ line ∈ lines, OneLine line) :
    lines.flatMap textLines = lines := by
  induction lines with
  | nil => rfl
  | cons line lines ih =>
      obtain ⟨hline, hlines⟩ := List.forall_mem_cons.mp h
      rw [List.flatMap_cons, textLines_of_oneLine hline, ih hlines, List.singleton_append]

def Step.line? : Step → Option String
  | .line text => some text
  | .log _ => none

namespace Script

def lines (script : Script) : List String := script.filterMap Step.line?

@[simp] theorem lines_append (s t : Script) : lines (s ++ t) = s.lines ++ t.lines := by
  simp [lines]

@[simp] theorem lines_ofLines (texts : List String) : (ofLines texts).lines = texts := by
  simp [lines, ofLines, Step.line?, Function.comp_def]

@[simp] theorem lines_ofLog (entries : List Log.Entry) : (ofLog entries).lines = [] := by
  simp [lines, ofLog, Step.line?]

@[simp] theorem lines_flatMap {α : Type} (f : α → Script) (l : List α) :
    lines (l.flatMap f) = l.flatMap fun a => (f a).lines := by
  simp [lines, List.filterMap_flatMap]

@[simp] theorem log_flatMap {α : Type} (f : α → Script) (l : List α) :
    log (l.flatMap f) = l.flatMap fun a => (f a).log := by
  simp [log, List.filterMap_flatMap]

theorem toList_text (script : Script) :
    script.text.toList = script.lines.flatMap fun line => line.toList ++ ['\n'] := by
  induction script with
  | nil => rfl
  | cons step script ih =>
      have htext : text (step :: script) = step.text ++ text script := by
        simp [text]
      rw [htext, String.toList_append, ih]
      cases step with
      | line text =>
          have hlines : lines (.line text :: script) = text :: lines script := rfl
          rw [hlines, List.flatMap_cons, Step.text, String.toList_append]
          rfl
      | log entry =>
          have hlines : lines (.log entry :: script) = lines script := rfl
          rw [hlines, Step.text]
          rfl

/-- The lines of an artifact are those of what is written, one after the other. -/
theorem textLines_script (script : Script) :
    textLines script.text = script.lines.flatMap textLines ++ [""] := by
  -- what is written ends at its own break
  have hsplit (written : List String) :
      (written.flatMap fun line => line.toList ++ ['\n']).splitOn '\n' =
        written.flatMap (fun line => line.toList.splitOn '\n') ++ [[]] := by
    induction written with
    | nil => rfl
    | cons line written ih =>
        rw [List.flatMap_cons, List.append_assoc, List.singleton_append,
          List.splitOn_append_cons_self, ih, List.flatMap_cons, List.append_assoc]
  rw [textLines, toList_text, hsplit, List.map_append, List.map_flatMap]
  rfl

/-- Lines that are lines indeed are read back. -/
theorem textLines_text {script : Script} (h : ∀ line ∈ script.lines, OneLine line) :
    textLines script.text = script.lines ++ [""] := by
  rw [textLines_script, flatMap_textLines h]

end Script

def between? (front back text : String) : Option String :=
  match afterFront? front.toList text.toList with
  | none => none
  | some rest =>
    match afterFront? back.toList.reverse rest.reverse with
    | none => none
    | some inner => some (String.ofList inner.reverse)

theorem between?_append (front inner back : String) :
    between? front back (front ++ inner ++ back) = some inner := by
  have htext : (front ++ inner ++ back).toList =
      front.toList ++ (inner.toList ++ back.toList) := by
    simp
  simp only [between?, htext, afterFront?_append, List.reverse_append, List.reverse_reverse,
    String.ofList_toList]

end LazyGL.Binding
