import LazyGL.Text.Encoding
import LazyGL.Writer

/-!
Scripts: the lines of an artifact and the log entries made between them, in
order. An emission writes its lines in many small pieces, and each of them can
fail. It follows a script if it does nothing but to ask for pieces and for log
entries one after the other, goes on after none that fails, and has the bytes and
the entries of the script in their order. Each construct of an emission has a
rule for this, and the rules compose along the code.
-/

namespace LazyGL.Binding

inductive Step
  /-- Writes a line and its end. -/
  | line (text : String)
  | log (entry : Log.Entry)
deriving DecidableEq

abbrev Script := List Step

def Step.text : Step → String
  | .line text => text ++ "\n"
  | .log _ => ""

def Step.entry? : Step → Option Log.Entry
  | .line _ => none
  | .log entry => some entry

namespace Script

def ofLines (lines : List String) : Script := lines.map .line

def ofLog (entries : List Log.Entry) : Script := entries.map .log

def text (script : Script) : String := String.join (script.map Step.text)

def log (script : Script) : List Log.Entry := script.filterMap Step.entry?

@[simp] theorem text_append (s t : Script) : text (s ++ t) = s.text ++ t.text := by
  simp [text]

@[simp] theorem log_append (s t : Script) : log (s ++ t) = s.log ++ t.log := by
  simp [log]

@[simp] theorem text_ofLog (entries : List Log.Entry) : (ofLog entries).text = "" := by
  induction entries with
  | nil => rfl
  | cons entry entries ih =>
      simp only [text, ofLog, List.map_cons, String.join_cons, Step.text] at ih ⊢
      rw [ih, String.append_empty]

@[simp] theorem log_ofLog (entries : List Log.Entry) : (ofLog entries).log = entries := by
  induction entries with
  | nil => rfl
  | cons entry entries ih => simpa [log, ofLog, Step.entry?] using ih

@[simp] theorem log_ofLines (lines : List String) : (ofLines lines).log = [] := by
  induction lines with
  | nil => rfl
  | cons line lines ih => simp [log, ofLines, Step.entry?]

@[simp] theorem text_ofLines_nil : (ofLines []).text = "" := rfl

@[simp] theorem text_ofLines_cons (line : String) (lines : List String) :
    (ofLines (line :: lines)).text = line ++ ("\n" ++ (ofLines lines).text) := by
  simp [text, ofLines, Step.text, String.append_assoc]

theorem ofLog_append (entries more : List Log.Entry) :
    ofLog (entries ++ more) = ofLog entries ++ ofLog more :=
  List.map_append

theorem ofLines_append (lines more : List String) :
    ofLines (lines ++ more) = ofLines lines ++ ofLines more :=
  List.map_append

@[simp] theorem text_ofLines_append (lines more : List String) :
    (ofLines (lines ++ more)).text = (ofLines lines).text ++ (ofLines more).text := by
  rw [ofLines_append, text_append]

@[simp] theorem text_ofLines_flatMap {α : Type} (l : List α) (lines : α → List String) :
    (ofLines (l.flatMap lines)).text = String.join (l.map fun a => (ofLines (lines a)).text) := by
  induction l with
  | nil => rfl
  | cons a l ih =>
      rw [List.flatMap_cons, text_ofLines_append, ih, List.map_cons, String.join_cons]

theorem ofLines_flatMap {α : Type} (l : List α) (lines : α → List String) :
    ofLines (l.flatMap lines) = l.flatMap fun a => ofLines (lines a) :=
  List.map_flatMap

/-- Lines one below the other, with the end of the last one. -/
theorem text_ofLines_of_ne_nil {lines : List String} (h : lines ≠ []) :
    (ofLines lines).text = "\n".intercalate lines ++ "\n" := by
  induction lines with
  | nil => exact absurd rfl h
  | cons line lines ih =>
      rw [text_ofLines_cons]
      cases lines with
      | nil => simp
      | cons next lines =>
          rw [ih (List.cons_ne_nil _ _), String.intercalate_cons_cons]
          simp only [String.append_assoc]

end Script

/-! ### Effects -/

/-- What can be seen of the writing of an artifact. -/
inductive Effect
  | byte (b : UInt8)
  | entry (e : Log.Entry)
deriving DecidableEq

def Effect.byte? : Effect → Option UInt8
  | .byte b => some b
  | .entry _ => none

def Effect.entry? : Effect → Option Log.Entry
  | .byte _ => none
  | .entry e => some e

def bytesOf (effects : List Effect) : Bytes := effects.filterMap Effect.byte?

def entriesOf (effects : List Effect) : List Log.Entry := effects.filterMap Effect.entry?

@[simp] theorem bytesOf_append (effects more : List Effect) :
    bytesOf (effects ++ more) = bytesOf effects ++ bytesOf more :=
  List.filterMap_append

@[simp] theorem entriesOf_append (effects more : List Effect) :
    entriesOf (effects ++ more) = entriesOf effects ++ entriesOf more :=
  List.filterMap_append

@[simp] theorem bytesOf_map_byte (bytes : Bytes) : bytesOf (bytes.map .byte) = bytes := by
  simp [bytesOf, List.filterMap_map, Function.comp_def, Effect.byte?]

@[simp] theorem entriesOf_map_byte (bytes : Bytes) : entriesOf (bytes.map .byte) = [] := by
  simp [entriesOf, Effect.entry?]

def textEffects (text : String) : List Effect := (Utf8.ofString text).map .byte

theorem textEffects_append (text more : String) :
    textEffects (text ++ more) = textEffects text ++ textEffects more := by
  rw [textEffects, Utf8.ofString_append, List.map_append]
  rfl

theorem textEffects_join (texts : List String) :
    textEffects (String.join texts) = texts.flatMap textEffects := by
  induction texts with
  | nil => rfl
  | cons text texts ih => rw [String.join_cons, textEffects_append, ih, List.flatMap_cons]

def Step.effects : Step → List Effect
  | .line text => textEffects (text ++ "\n")
  | .log entry => [.entry entry]

def Script.effects (script : Script) : List Effect := script.flatMap Step.effects

namespace Script

@[simp] theorem effects_append (s t : Script) : effects (s ++ t) = s.effects ++ t.effects :=
  List.flatMap_append

theorem effects_ofLog (entries : List Log.Entry) :
    (ofLog entries).effects = entries.map .entry := by
  rw [effects, ofLog, List.flatMap_map, List.map_eq_flatMap]
  rfl

theorem effects_ofLines (lines : List String) :
    (ofLines lines).effects = textEffects (ofLines lines).text := by
  induction lines with
  | nil => rfl
  | cons line lines ih =>
      rw [text_ofLines_cons, ← String.append_assoc, textEffects_append, ← ih]
      rfl

theorem bytesOf_effects (script : Script) :
    bytesOf script.effects = Utf8.ofString script.text := by
  induction script with
  | nil => rfl
  | cons step script ih =>
      have htext : text (step :: script) = step.text ++ text script := by
        simp [text]
      have heffects : effects (step :: script) = step.effects ++ effects script := by
        simp [effects]
      rw [htext, heffects, bytesOf_append, ih, Utf8.ofString_append]
      cases step with
      | line text => rw [Step.effects, textEffects, bytesOf_map_byte, Step.text]
      | log entry => rfl

theorem entriesOf_effects (script : Script) : entriesOf script.effects = script.log := by
  induction script with
  | nil => rfl
  | cons step script ih =>
      have heffects : effects (step :: script) = step.effects ++ effects script := by
        simp [effects]
      rw [heffects, entriesOf_append, ih]
      cases step with
      | line text => rw [Step.effects, textEffects, entriesOf_map_byte]; rfl
      | log entry => rfl

end Script

/-! ### Emissions that write a text -/

section Writes

variable {ε : Type} {m : Type → Type} [Monad m] [Writer ε m] {x y : ExceptT ε m Unit}
  {text more : String}

/-- An emission that writes a text, in whatever pieces, and does nothing else. -/
def Writes (x : ExceptT ε m Unit) (text : String) : Prop :=
  ∃ pieces, x = print pieces ∧ String.join pieces = text

theorem writes_print (pieces : List String) :
    Writes (print pieces : ExceptT ε m Unit) (String.join pieces) :=
  ⟨pieces, rfl, rfl⟩

theorem writes_pure : Writes (pure () : ExceptT ε m Unit) "" :=
  ⟨[], rfl, rfl⟩

/-- How a text is put together does not matter. -/
theorem Writes.congr (h : Writes x text) (htext : text = more) : Writes x more :=
  htext ▸ h

variable [LawfulMonad m]

theorem print_append (pieces more : List String) :
    (print (pieces ++ more) : ExceptT ε m Unit) = print pieces >>= fun _ => print more :=
  List.forM_append

theorem Writes.bind (hx : Writes x text) (hy : Writes y more) :
    Writes (x >>= fun _ => y) (text ++ more) := by
  obtain ⟨pieces, rfl, rfl⟩ := hx
  obtain ⟨others, rfl, rfl⟩ := hy
  exact ⟨pieces ++ others, (print_append _ _).symm, String.join_append⟩

theorem writes_forM {α : Type} {f : α → ExceptT ε m Unit} {texts : α → String}
    (h : ∀ a, Writes (f a) (texts a)) (l : List α) :
    Writes (l.forM f) (String.join (l.map texts)) := by
  induction l with
  | nil => exact writes_pure
  | cons a l ih =>
      rw [List.map_cons, String.join_cons]
      exact (h a).bind ih

theorem intercalate_cons (separator first : String) (rest : List String) :
    separator.intercalate (first :: rest) =
      first ++ String.join (rest.map fun text => separator ++ text) := by
  induction rest generalizing first with
  | nil => simp
  | cons next rest ih =>
      rw [String.intercalate_cons_cons, ih, List.map_cons, String.join_cons]
      simp only [String.append_assoc]

/-- Items that are not the first ones come after a separator each. -/
theorem writes_behind (separator : String) (items : List (List String)) (index : Nat) :
    Writes ((items.zipIdx (index + 1)).forM (fun (pieces, index) => do
        if 0 < index then print [separator]
        print pieces) : ExceptT ε m Unit)
      (String.join (items.map fun item => separator ++ String.join item)) := by
  induction items generalizing index with
  | nil => exact writes_pure
  | cons item items ih =>
      have hitem := (writes_print (m := m) [separator]).bind (writes_print item)
      have hall := hitem.bind (ih (index + 1))
      simpa using hall

theorem writes_printSeparated (separator : String) (items : List (List String)) :
    Writes (printSeparated separator items : ExceptT ε m Unit)
      (separator.intercalate (items.map String.join)) := by
  cases items with
  | nil => exact writes_pure
  | cons item items =>
      rw [List.map_cons, intercalate_cons, List.map_map]
      exact (writes_print item).bind (writes_behind separator items 0)

end Writes

/-! ### Requests -/

inductive Request
  | write (piece : String)
  | log (entry : Log.Entry)

def Request.effects : Request → List Effect
  | .write piece => textEffects piece
  | .log entry => [.entry entry]

section Follows

variable {ε : Type} {m : Type → Type} [Monad m] [Writer ε m] [Journal m] {x y : ExceptT ε m Unit}
  {s t : Script}

def Request.perform : Request → ExceptT ε m Unit
  | .write piece => ExceptT.mk (Writer.write piece)
  | .log entry => ExceptT.lift (Journal.log entry)

def perform (requests : List Request) : ExceptT ε m Unit := requests.forM Request.perform

theorem print_eq_perform (pieces : List String) :
    (print pieces : ExceptT ε m Unit) = perform (pieces.map .write) := by
  induction pieces with
  | nil => rfl
  | cons piece pieces ih => exact congrArg (_ >>= ·) (funext fun _ => ih)

theorem logAll_eq_perform (entries : List Log.Entry) :
    (logAll entries : ExceptT ε m Unit) = perform (entries.map .log) := by
  induction entries with
  | nil => rfl
  | cons entry entries ih => exact congrArg (_ >>= ·) (funext fun _ => ih)

/-- An emission that has the effects of a script, in whatever pieces, and ends
where a piece fails. -/
def Follows (x : ExceptT ε m Unit) (script : Script) : Prop :=
  ∃ requests, x = perform requests ∧ requests.flatMap Request.effects = script.effects

theorem follows_pure : Follows (pure () : ExceptT ε m Unit) [] :=
  ⟨[], rfl, rfl⟩

theorem follows_logAll (entries : List Log.Entry) :
    Follows (logAll entries : ExceptT ε m Unit) (.ofLog entries) := by
  refine ⟨entries.map .log, logAll_eq_perform entries, ?_⟩
  rw [Script.effects_ofLog, List.flatMap_map, List.map_eq_flatMap]
  rfl

/-- Lines that are written as a text. -/
theorem Writes.follows {lines : List String} (h : Writes x (Script.ofLines lines).text) :
    Follows x (.ofLines lines) := by
  obtain ⟨pieces, rfl, hpieces⟩ := h
  refine ⟨pieces.map .write, print_eq_perform pieces, ?_⟩
  rw [Script.effects_ofLines, ← hpieces, textEffects_join, List.flatMap_map]
  rfl

theorem follows_print {pieces lines : List String}
    (h : String.join pieces = (Script.ofLines lines).text) :
    Follows (print pieces : ExceptT ε m Unit) (.ofLines lines) :=
  ((writes_print pieces).congr h).follows

/-- How a script is put together does not matter. -/
theorem Follows.congr (h : Follows x s) (hscript : s = t) : Follows x t :=
  hscript ▸ h

variable [LawfulMonad m]

theorem perform_append (requests more : List Request) :
    (perform (requests ++ more) : ExceptT ε m Unit) =
      perform requests >>= fun _ => perform more :=
  List.forM_append

theorem Follows.bind (hx : Follows x s) (hy : Follows y t) :
    Follows (x >>= fun _ => y) (s ++ t) := by
  obtain ⟨requests, rfl, hrequests⟩ := hx
  obtain ⟨more, rfl, hmore⟩ := hy
  refine ⟨requests ++ more, (perform_append _ _).symm, ?_⟩
  rw [List.flatMap_append, hrequests, hmore, Script.effects_append]

theorem follows_forM {α : Type} {f : α → ExceptT ε m Unit} {scripts : α → Script}
    (h : ∀ a, Follows (f a) (scripts a)) (l : List α) :
    Follows (l.forM f) (l.flatMap scripts) := by
  induction l with
  | nil => exact follows_pure
  | cons a l ih =>
      rw [List.flatMap_cons]
      exact (h a).bind ih

end Follows

end LazyGL.Binding
