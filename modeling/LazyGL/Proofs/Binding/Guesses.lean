import LazyGL.Proofs.Binding.CallSurface

/-!
Guessed types. A parameter whose shape fits no rule is taken for a pointer, and
the type that stands in the artifacts is in the log as well.

Main statement: the call surfaces and the resolvers warn of the same parameters,
which are those with guessed types, in the order of their declarations; what
else is logged is not about parameters; and both artifacts declare the parameters
of all commands, in this order, with the types that the warnings show.
-/

namespace LazyGL.Binding

def IsGuess (param : Param) : Prop := (Target.ofParam param.base param.shape).isUnverified

instance : DecidablePred IsGuess := fun _ => inferInstanceAs (Decidable (_ = true))

def guessed (commands : List Command) : List Param :=
  (commands.flatMap Command.params).filter IsGuess

def guessWarning (param : Param) : Log.Entry :=
  ⟨.warn, "no rule for parameter shape " ++ Quoted.quote param.shape ++ " of " ++ param.base ++
    ", using " ++ (Target.ofParam param.base param.shape).text⟩

/-! ### Logs -/

theorem paramLog_eq (param : Param) :
    Target.paramLog param.base param.shape = if IsGuess param then [guessWarning param] else [] :=
  rfl

/-- All that is logged about the types of some commands. -/
theorem flatMap_signatureLog (commands : List Command) :
    commands.flatMap Signature.log = (guessed commands).map guessWarning := by
  have hparams : commands.flatMap Signature.log =
      (commands.flatMap Command.params).flatMap fun param =>
        Target.paramLog param.base param.shape := by
    rw [List.flatMap_assoc]
    rfl
  rw [hparams, guessed]
  induction commands.flatMap Command.params with
  | nil => rfl
  | cons param params ih =>
      rw [List.flatMap_cons, ih, paramLog_eq, List.filter_cons]
      by_cases hguess : IsGuess param
      · simp [hguess]
      · simp [hguess]

theorem CallSurface.log_script (r : Registry) :
    (script r).log = (guessed r.commands).map guessWarning := by
  rw [← flatMap_signatureLog]
  simp [script, surface]

theorem Resolver.warnLog_script (r : Registry) :
    (script r).log.filter (fun entry => entry.level = .warn) =
      (guessed r.commands).map guessWarning := by
  rw [log_script, List.filter_flatMap, ← flatMap_signatureLog]
  refine List.flatMap_congr fun command _ => ?_
  have hwarn : (Signature.log command).filter (fun entry => entry.level = .warn) =
      Signature.log command :=
    List.filter_eq_self.mpr fun entry hentry => decide_eq_true (level_signatureLog entry hentry)
  have hungated : (ungatedLog (r.candidateTags command.name) command).filter
      (fun entry => entry.level = .warn) = [] := by
    rw [List.filter_eq_nil_iff]
    intro entry hentry
    simp [level_ungatedLog entry hentry]
  rw [List.filter_append, hwarn, hungated, List.append_nil]

/-- Between the warnings are only the lines about commands without tags. -/
theorem Resolver.otherLog_script (r : Registry) :
    (script r).log.filter (fun entry => entry.level ≠ .warn) =
      (r.commands.filter fun command => (r.candidateTags command.name).isEmpty).map fun command =>
        ⟨.debug, command.name ++ " is not part of any feature or extension"⟩ := by
  rw [← debugLog_script]
  refine List.filter_congr fun entry hentry => ?_
  rw [log_script, List.mem_flatMap] at hentry
  obtain ⟨command, -, hentry⟩ := hentry
  rcases List.mem_append.mp hentry with hentry | hentry
  · rw [level_signatureLog entry hentry]
    rfl
  · rw [level_ungatedLog entry hentry]
    rfl

/-! ### Texts -/

/-- The pieces stand in a text one after the other, with anything between. -/
def InOrder : List String → String → Prop
  | [], _ => True
  | piece :: pieces, text => ∃ front back, text = front ++ piece ++ back ∧ InOrder pieces back

namespace InOrder

variable {pieces more : List String} {text rest : String}

theorem front (piece back : String) : InOrder [piece] (piece ++ back) :=
  ⟨"", back, by rw [String.empty_append], trivial⟩

theorem after (h : InOrder pieces text) (front : String) : InOrder pieces (front ++ text) := by
  cases pieces with
  | nil => trivial
  | cons piece pieces =>
      obtain ⟨middle, back, htext, hback⟩ := h
      refine ⟨front ++ middle, back, ?_, hback⟩
      simp only [htext, String.append_assoc]

theorem append (h : InOrder pieces text) (hmore : InOrder more rest) :
    InOrder (pieces ++ more) (text ++ rest) := by
  induction pieces generalizing text with
  | nil => exact hmore.after text
  | cons piece pieces ih =>
      obtain ⟨front, back, htext, hback⟩ := h
      refine ⟨front, back ++ rest, ?_, ih hback⟩
      simp only [htext, String.append_assoc]

theorem before (h : InOrder pieces text) (back : String) : InOrder pieces (text ++ back) := by
  have hnil : InOrder [] back := trivial
  have happend := h.append hnil
  rwa [List.append_nil] at happend

theorem flatMap {α : Type} {pieces : α → List String} {script : α → Script} {l : List α}
    (h : ∀ a ∈ l, InOrder (pieces a) (script a).text) :
    InOrder (l.flatMap pieces) (Script.text (l.flatMap script)) := by
  induction l with
  | nil => trivial
  | cons a l ih =>
      obtain ⟨ha, hl⟩ := List.forall_mem_cons.mp h
      rw [List.flatMap_cons, List.flatMap_cons, Script.text_append]
      exact ha.append (ih hl)

end InOrder

/-- What a line begins with is a piece of the text. -/
theorem inOrder_line (before : List String) {line : String} (after : List String)
    {lines : List String} (hlines : lines = before ++ line :: after) {piece : String}
    (back : String) (hline : line = piece ++ back) :
    InOrder [piece] (Script.ofLines lines).text := by
  rw [hlines, hline, Script.text_ofLines_append, Script.text_ofLines_cons]
  apply InOrder.after
  apply InOrder.before
  exact .front piece back

/-- The declarations of a command's parameters in the artifact of the call
surfaces: for the entry point, for the positional function and in the structure. -/
def surfaceDeclarations (command : Command) : List String :=
  ["pub type PFN_" ++ command.name ++ " = unsafe extern \"system\" fn(" ++
      ", ".intercalate (declared command) ++ ")",
    "pub unsafe fn " ++ command.name ++ "(" ++ ", ".intercalate (declared command) ++ ")"] ++
  (declared command).map fun declaration => "    pub " ++ declaration ++ ","

def resolverDeclaration (command : Command) : String :=
  "pub unsafe extern \"system\" fn " ++ command.name ++ "(" ++
    ", ".intercalate (declared command) ++ ")"

namespace CallSurface

theorem inOrder_field (param : Param) (target : Target) :
    InOrder ["    pub " ++ (param.name ++ ": " ++ target.text) ++ ","]
      (Script.ofLines (field param target)).text := by
  refine inOrder_line _ [] rfl "" ?_
  simp only [String.append_assoc, String.append_empty]

theorem inOrder_pointerType (command : Command) :
    InOrder ["pub type PFN_" ++ command.name ++ " = unsafe extern \"system\" fn(" ++
        ", ".intercalate (declared command) ++ ")"]
      (Script.ofLines (pointerType command.name (.ofCommand command))).text := by
  rw [← paramList_ofCommand]
  refine inOrder_line [""] [] rfl ((Signature.ofCommand command).returnClause ++ ";") ?_
  simp only [String.append_assoc]

theorem inOrder_positional (command : Command) :
    InOrder ["pub unsafe fn " ++ command.name ++ "(" ++ ", ".intercalate (declared command) ++ ")"]
      (Script.ofLines (positional command.name (.ofCommand command))).text := by
  rw [← paramList_ofCommand]
  refine inOrder_line ["", "#[inline]"] _ rfl
    ((Signature.ofCommand command).returnClause ++ " \x7b") ?_
  simp only [String.append_assoc]

theorem inOrder_arguments (command : Command) :
    InOrder ((declared command).map fun declaration => "    pub " ++ declaration ++ ",")
      (Script.ofLines (arguments command.name (.ofCommand command))).text := by
  rw [arguments, Script.ofLines_append, Script.ofLines_append, Script.text_append,
    Script.text_append, Script.ofLines_flatMap, Signature.ofCommand, List.flatMap_map, declared,
    List.map_map, List.map_eq_flatMap]
  refine .before (.after (.flatMap fun param _ => ?_) _) _
  exact inOrder_field param (.ofParam param.base param.shape)

theorem inOrder_lines (command : Command) :
    InOrder (surfaceDeclarations command) (Script.ofLines (lines command)).text := by
  have hfunctions := (inOrder_pointerType command).append (inOrder_positional command)
  rw [lines, Script.ofLines_append, Script.ofLines_append, Script.ofLines_append,
    Script.text_append, Script.text_append, Script.text_append]
  exact (hfunctions.append (inOrder_arguments command)).before _

theorem inOrder_script (r : Registry) :
    InOrder (r.commands.flatMap surfaceDeclarations) (script r).text := by
  have hsurfaces : InOrder (r.commands.flatMap surfaceDeclarations)
      (Script.text (r.commands.flatMap surface)) := by
    refine .flatMap fun command _ => ?_
    rw [surface, Script.text_append, Script.text_ofLog, String.empty_append]
    exact inOrder_lines command
  rw [script, Script.text_append, Script.text_append]
  exact (hsurfaces.after _).before _

end CallSurface

namespace Resolver

theorem inOrder_lines (table candidates : List String) (command : Command) :
    InOrder [resolverDeclaration command]
      (Script.ofLines (lines table candidates command)).text := by
  unfold resolverDeclaration
  rw [← paramList_ofCommand]
  have hlines : ∃ after, lines table candidates command =
      [""] ++ ("pub unsafe extern \"system\" fn " ++ command.name ++ "(" ++
        (Signature.ofCommand command).paramList ++ ")" ++
          (Signature.ofCommand command).returnClause ++ " \x7b") :: after := ⟨_, rfl⟩
  obtain ⟨after, hlines⟩ := hlines
  refine inOrder_line [""] after hlines ((Signature.ofCommand command).returnClause ++ " \x7b") ?_
  simp only [String.append_assoc]

theorem inOrder_script (r : Registry) :
    InOrder (r.commands.map resolverDeclaration) (script r).text := by
  have hresolvers : InOrder (r.commands.flatMap fun command => [resolverDeclaration command])
      (Script.text (r.commands.flatMap (resolver r (tagTable r)))) := by
    refine .flatMap fun command _ => ?_
    rw [resolver, Script.text_append, Script.text_ofLog, String.empty_append]
    exact inOrder_lines _ _ command
  rw [script, Script.text_append, List.map_eq_flatMap]
  exact hresolvers.after _

end Resolver

/-- Both artifacts come with the same warnings: one for each parameter with a
guessed type, in the order of the declarations, with the type that the artifacts
declare it with. Nothing else is logged but which commands have no tags. -/
theorem guesses_reported (r : Registry) :
    ((Artifact.commands.log r).filter (fun entry => entry.level = .warn) =
        (guessed r.commands).map guessWarning ∧
      (Artifact.loaders.log r).filter (fun entry => entry.level = .warn) =
        (guessed r.commands).map guessWarning) ∧
    ((Artifact.commands.log r).filter (fun entry => entry.level ≠ .warn) = [] ∧
      (Artifact.loaders.log r).filter (fun entry => entry.level ≠ .warn) =
        (r.commands.filter fun command => (r.candidateTags command.name).isEmpty).map
          fun command =>
            ⟨.debug, command.name ++ " is not part of any feature or extension"⟩) ∧
    InOrder (r.commands.flatMap surfaceDeclarations) (Artifact.commands.text r) ∧
      InOrder (r.commands.map resolverDeclaration) (Artifact.loaders.text r) := by
  have hsurfaces : Artifact.commands.log r = (guessed r.commands).map guessWarning :=
    (Artifact.log_eq _ r).trans (CallSurface.log_script r)
  have hresolvers : Artifact.loaders.log r = (Resolver.script r).log := Artifact.log_eq _ r
  have hlevel : ∀ entry ∈ Artifact.commands.log r, entry.level = .warn := by
    rw [hsurfaces, List.forall_mem_map]
    exact fun param _ => rfl
  rw [hresolvers, Artifact.text_eq, Artifact.text_eq]
  refine ⟨⟨?_, Resolver.warnLog_script r⟩, ⟨?_, Resolver.otherLog_script r⟩,
    CallSurface.inOrder_script r, Resolver.inOrder_script r⟩
  · rw [List.filter_eq_self.mpr fun entry hentry => decide_eq_true (hlevel entry hentry)]
    exact hsurfaces
  · rw [List.filter_eq_nil_iff]
    intro entry hentry
    simp [hlevel entry hentry]

example : (guessed [⟨"f", "void", [{ name := "p", base := "T", shape := "!***?" },
    { name := "q", base := "T", shape := "!*?" }]⟩]).map guessWarning =
      [⟨.warn, "no rule for parameter shape \"!***?\" of T, using *mut T"⟩] := by
  decide +kernel

end LazyGL.Binding
