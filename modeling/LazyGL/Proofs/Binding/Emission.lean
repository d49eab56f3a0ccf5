import LazyGL.Binding.Artifact
import LazyGL.Proofs.Binding.Script

/-!
The artifacts line by line. Each has a script, made of lines that are put
together from the parts of a command or of a constant, and what writes the
artifact follows the script. Main statement: the text and the log of an artifact
in memory are those of its script.
-/

namespace LazyGL.Binding

variable {ε : Type} {m : Type → Type} [Monad m] [Writer ε m] [LawfulMonad m]

/-! ### Signatures -/

namespace Signature

def paramList (s : Signature) : String :=
  ", ".intercalate (s.params.map fun (param, target) => param.name ++ ": " ++ target.text)

def argumentList (s : Signature) : String :=
  ", ".intercalate (s.params.map fun (param, _) => param.name)

def returnClause (s : Signature) : String :=
  if s.result.isVoid then "" else " -> " ++ s.result.text

theorem writes_emitParams (s : Signature) :
    Writes (s.emitParams : ExceptT ε m Unit) s.paramList := by
  unfold emitParams
  refine Writes.congr (writes_printSeparated _ _) ?_
  -- here and below the two sides group their literals differently, so none are joined
  simp [paramList, Function.comp_def, String.append_assoc, -String.reduceAppend]

theorem writes_emitArguments (s : Signature) :
    Writes (s.emitArguments : ExceptT ε m Unit) s.argumentList := by
  refine Writes.congr (writes_printSeparated _ _) ?_
  simp [argumentList, Function.comp_def]

omit [LawfulMonad m] in
theorem writes_emitReturn (s : Signature) :
    Writes (s.emitReturn : ExceptT ε m Unit) s.returnClause := by
  unfold emitReturn returnClause
  cases s.result.isVoid with
  | true => exact writes_pure
  | false => exact (writes_print _).congr (by simp)

end Signature

theorem follows_emitHeader [Journal m] (lines : List String) (h : lines ≠ []) :
    Follows (emitHeader lines : ExceptT ε m Unit) (.ofLines (notice :: lines)) := by
  unfold emitHeader
  refine (Writes.congr ((writes_print _).bind (writes_print _)) ?_).follows
  simp [Script.text_ofLines_of_ne_nil h, String.append_assoc, -String.reduceAppend]

/-! ### The primitive types -/

namespace Primitive

def script : Script := .ofLines (notice :: "" :: declarations)

theorem follows_emit [Journal m] : Follows (emit : ExceptT ε m Unit) script := by
  refine Writes.follows (((writes_print _).bind ((writes_print _).bind (writes_print _))).congr ?_)
  have hdeclarations : declarations ≠ [] := List.cons_ne_nil _ _
  simp [Script.text_ofLines_of_ne_nil hdeclarations, String.append_assoc, -String.reduceAppend]

end Primitive

/-! ### The constants -/

namespace Constant

def declaration (kind : ValueKind) (e : Enumerant) : String :=
  "pub const " ++ e.name ++ ": " ++ typeOf kind ++ " = " ++
    (initializer kind e.value).text (typeOf kind) ++ ";"

def declare (kind : ValueKind) (e : Enumerant) : Script :=
  (if (initializer kind e.value).isTruncated then [.log (truncation e)] else []) ++
    [.line (declaration kind e)]

def groupLines (group : String) (members : List String) : List String :=
  ["    pub mod " ++ group ++ " \x7b",
    "        pub use super::super::\x7b" ++ ", ".intercalate members ++ "\x7d;",
    "    \x7d"]

def script (r : Registry) : Script :=
  .ofLines [notice, "", "use super::types::*;", ""] ++
    r.enums.flatMap (declare .plain) ++ .ofLines [""] ++
    r.bitfields.flatMap (declare .bitmask) ++ .ofLines [""] ++
    .ofLines ["#[allow(non_snake_case)]", "pub mod groups \x7b"] ++
    .ofLines (r.groups.entries.flatMap fun (group, members) => groupLines group members.toList) ++
    .ofLines ["\x7d"]

theorem follows_emitConstant [Journal m] (kind : ValueKind) (e : Enumerant) :
    Follows (emitConstant kind e : ExceptT ε m Unit) (declare kind e) := by
  unfold emitConstant declare declaration
  dsimp only
  have hline : Follows (print ["pub const ", e.name, ": " ++ typeOf kind ++ " = ",
      (initializer kind e.value).text (typeOf kind), ";", "\n"] : ExceptT ε m Unit)
      (.ofLines ["pub const " ++ e.name ++ ": " ++ typeOf kind ++ " = " ++
        (initializer kind e.value).text (typeOf kind) ++ ";"]) := by
    refine ((writes_print _).congr ?_).follows
    simp [String.append_assoc, -String.reduceAppend]
  split
  · exact (follows_logAll [truncation e]).bind hline
  · exact hline

theorem writes_emitGroup (group : String) (members : List String) :
    Writes (emitGroup group members : ExceptT ε m Unit)
      (Script.ofLines (groupLines group members)).text := by
  unfold emitGroup groupLines
  refine Writes.congr ((writes_print _).bind ((writes_print _).bind
    ((writes_printSeparated _ _).bind ((writes_print _).bind (writes_print _))))) ?_
  simp [Function.comp_def, String.append_assoc, -String.reduceAppend]

theorem follows_emit [Journal m] (r : Registry) :
    Follows (emit r : ExceptT ε m Unit) (script r) := by
  have hline (line : String) : Follows (print [line, "\n"] : ExceptT ε m Unit) (.ofLines [line]) :=
    follows_print (by simp)
  have huse : Follows (print ["\n", "use super::types::*;", "\n", "\n"] : ExceptT ε m Unit)
      (.ofLines ["", "use super::types::*;", ""]) := by
    refine follows_print ?_
    simp [-String.reduceAppend]
  have hblank : Follows (print ["\n"] : ExceptT ε m Unit) (.ofLines [""]) :=
    follows_print (by simp)
  have hgroups := (writes_forM (fun group : String × OrderedSet String =>
    writes_emitGroup (m := m) group.1 group.2.toList) r.groups.entries)
  rw [← Script.text_ofLines_flatMap] at hgroups
  unfold emit script
  refine Follows.congr ((hline _).bind (huse.bind
    ((follows_forM (follows_emitConstant .plain) _).bind (hblank.bind
    ((follows_forM (follows_emitConstant .bitmask) _).bind (hblank.bind ((hline _).bind
    ((hline _).bind (hgroups.follows.bind (hline _)))))))))) ?_
  simp [Script.ofLines]

end Constant

/-! ### The call surfaces -/

namespace CallSurface

def call (name : String) (s : Signature) : String :=
  "unsafe \x7b std::mem::transmute::<*mut c_void, PFN_" ++ name ++ ">(cell::" ++ name ++
    ".get())(" ++ s.argumentList ++ ") \x7d"

def pointerType (name : String) (s : Signature) : List String :=
  ["",
    "pub type PFN_" ++ name ++ " = unsafe extern \"system\" fn(" ++ s.paramList ++ ")" ++
      s.returnClause ++ ";"]

def positional (name : String) (s : Signature) : List String :=
  ["",
    "#[inline]",
    "pub unsafe fn " ++ name ++ "(" ++ s.paramList ++ ")" ++ s.returnClause ++ " \x7b",
    "    " ++ call name s,
    "\x7d"]

def field (param : Param) (target : Target) : List String :=
  (param.group.map fun group => "    /// Group: `" ++ group ++ "`.").toList ++
    (param.length.map fun length => "    /// Length: `" ++ length ++ "`.").toList ++
    ["    pub " ++ param.name ++ ": " ++ target.text ++ ","]

def arguments (name : String) (s : Signature) : List String :=
  ["",
    "/// Named arguments of [`" ++ name ++ "`].",
    "pub struct " ++ name ++ "Args \x7b"] ++
  s.params.flatMap (fun (param, target) => field param target) ++
  ["\x7d"]

def namedCall (name : String) (s : Signature) : List String :=
  ["",
    "impl " ++ name ++ "Args \x7b",
    "    #[inline]",
    "    pub unsafe fn call(self)" ++ s.returnClause ++ " \x7b",
    "        let Self \x7b " ++ s.argumentList ++ " \x7d = self;",
    "        " ++ call name s,
    "    \x7d",
    "\x7d"]

def lines (command : Command) : List String :=
  let s := Signature.ofCommand command
  pointerType command.name s ++ positional command.name s ++ arguments command.name s ++
    namedCall command.name s

def surface (command : Command) : Script :=
  .ofLog (Signature.log command) ++ .ofLines (lines command)

def header : List String := notice :: boilerplate

def cells (commands : List Command) : List String :=
  ["",
    "#[allow(non_upper_case_globals)]",
    "pub mod cell \x7b",
    "    use std::ffi::c_void;",
    "",
    "    use super::FnCell;",
    ""] ++
  commands.map cell ++
  ["\x7d"]

def script (r : Registry) : Script :=
  .ofLines header ++ r.commands.flatMap surface ++ .ofLines (cells r.commands)

variable (name : String) (s : Signature)

theorem writes_emitCall (margin : String) :
    Writes (emitCall margin name s : ExceptT ε m Unit) (margin ++ call name s ++ "\n") := by
  unfold emitCall call
  refine Writes.congr ((writes_print _).bind (s.writes_emitArguments.bind (writes_print _))) ?_
  simp [String.append_assoc, -String.reduceAppend]

theorem writes_emitPointerType :
    Writes (emitPointerType name s : ExceptT ε m Unit)
      (Script.ofLines (pointerType name s)).text := by
  unfold emitPointerType pointerType
  refine Writes.congr ((writes_print _).bind (s.writes_emitParams.bind ((writes_print _).bind
    (s.writes_emitReturn.bind (writes_print _))))) ?_
  simp [String.append_assoc, -String.reduceAppend]

theorem writes_emitPositional :
    Writes (emitPositional name s : ExceptT ε m Unit)
      (Script.ofLines (positional name s)).text := by
  unfold emitPositional positional
  refine Writes.congr ((writes_print _).bind ((writes_print _).bind (s.writes_emitParams.bind
    ((writes_print _).bind (s.writes_emitReturn.bind ((writes_print _).bind
      ((writes_emitCall name s _).bind (writes_print _)))))))) ?_
  simp [String.append_assoc, -String.reduceAppend]

omit [LawfulMonad m] in
theorem writes_emitComment (front : String) (text : Option String) :
    Writes (emitComment front text : ExceptT ε m Unit)
      (Script.ofLines (text.map fun text => front ++ text ++ "`.").toList).text := by
  cases text with
  | none => exact writes_pure
  | some text =>
      refine Writes.congr (writes_print _) ?_
      simp [String.append_assoc, -String.reduceAppend]

theorem writes_emitField (param : Param) (target : Target) :
    Writes (emitField param target : ExceptT ε m Unit)
      (Script.ofLines (field param target)).text := by
  unfold emitField field
  refine Writes.congr ((writes_emitComment _ _).bind ((writes_emitComment _ _).bind
    (writes_print _))) ?_
  simp [String.append_assoc, -String.reduceAppend]

theorem writes_emitFields :
    Writes (emitFields name s : ExceptT ε m Unit)
      (Script.ofLines (arguments name s)).text := by
  unfold emitFields arguments
  refine Writes.congr ((writes_print _).bind ((writes_print _).bind ((writes_forM (fun _ =>
    writes_emitField _ _) _).bind (writes_print _)))) ?_
  simp [String.append_assoc, -String.reduceAppend]

theorem writes_emitNamedCall :
    Writes (emitNamedCall name s : ExceptT ε m Unit)
      (Script.ofLines (namedCall name s)).text := by
  unfold emitNamedCall namedCall
  refine Writes.congr ((writes_print _).bind ((writes_print _).bind ((writes_print _).bind
    (s.writes_emitReturn.bind ((writes_print _).bind ((writes_print _).bind
      (s.writes_emitArguments.bind ((writes_print _).bind ((writes_emitCall name s _).bind
        ((writes_print _).bind (writes_print _))))))))))) ?_
  simp [String.append_assoc, -String.reduceAppend]

theorem follows_emitSurface [Journal m] (command : Command) :
    Follows (emitSurface command : ExceptT ε m Unit) (surface command) := by
  unfold emitSurface surface
  refine (follows_logAll _).bind (Writes.follows ?_)
  unfold lines
  refine Writes.congr ((writes_emitPointerType _ _).bind ((writes_emitPositional _ _).bind
    ((writes_emitFields _ _).bind (writes_emitNamedCall _ _)))) ?_
  simp [-String.reduceAppend]

/-- The surfaces are written, and the cells come to the end of the buffer. -/
theorem emitSurfaces_eq [Journal m] (buffer : String) (commands : List Command) :
    (emitSurfaces buffer commands : ExceptT ε m String) = do
      commands.forM emitSurface
      return buffer ++ (Script.ofLines (commands.map cell)).text := by
  induction commands generalizing buffer with
  | nil => simp [emitSurfaces]
  | cons command commands ih =>
      simp [emitSurfaces, ih, String.append_assoc]

theorem writes_emitCells (commands : List Command) :
    Writes (emitCells (Script.ofLines (commands.map cell)).text : ExceptT ε m Unit)
      (Script.ofLines (cells commands)).text := by
  unfold emitCells cells
  refine Writes.congr ((writes_print _).bind ((writes_print _).bind ((writes_print _).bind
    ((writes_print _).bind ((writes_print _).bind (writes_print _)))))) ?_
  simp [String.append_assoc, -String.reduceAppend]

theorem follows_emit [Journal m] (r : Registry) :
    Follows (emit r : ExceptT ε m Unit) (script r) := by
  have hsurfaces := follows_forM (m := m) follows_emitSurface r.commands
  have hcells := (writes_emitCells (m := m) r.commands).follows
  unfold emit script
  rw [emitSurfaces_eq, bind_assoc, pure_bind, String.empty_append]
  refine Follows.congr ((follows_emitHeader boilerplate ?_).bind (hsurfaces.bind hcells)) ?_
  · exact List.cons_ne_nil _ _
  · exact (List.append_assoc _ _ _).symm

end CallSurface

/-! ### The resolvers -/

namespace Resolver

def header : List String := notice :: boilerplate

def tagLine (tag : String) : String := "    c\"" ++ tag ++ "\","

def tableLines (table : List String) : List String :=
  ["", "static TAGS: [&CStr; " ++ toString table.length ++ "] = ["] ++ table.map tagLine ++ ["];"]

def tagReference (table : List String) (tag : String) : String :=
  "self::TAGS[" ++ toString (table.idxOf tag) ++ "]"

def lines (table candidates : List String) (command : Command) : List String :=
  let s := Signature.ofCommand command
  let name := command.name
  ["",
    "pub unsafe extern \"system\" fn " ++ name ++ "(" ++ s.paramList ++ ")" ++ s.returnClause ++
      " \x7b",
    "    self::cell::" ++ name ++ ".set(self::resolve(c\"" ++ name ++ "\", &[" ++
      ", ".intercalate (candidates.map (tagReference table)) ++ "]));",
    "    unsafe \x7b std::mem::transmute::<*mut c_void, commands::PFN_" ++ name ++
      ">(self::cell::" ++ name ++ ".get())(" ++ s.argumentList ++ ") \x7d",
    "\x7d"]

def resolver (r : Registry) (table : List String) (command : Command) : Script :=
  let candidates := r.candidateTags command.name
  .ofLog (Signature.log command ++ ungatedLog candidates command) ++
    .ofLines (lines table candidates command)

def script (r : Registry) : Script :=
  let table := tagTable r
  .ofLines (header ++ tableLines table) ++ r.commands.flatMap (resolver r table)

theorem writes_emitTable (table : List String) :
    Writes (emitTable table : ExceptT ε m Unit) (Script.ofLines (tableLines table)).text := by
  have htag (tag : String) : Writes (print ["    c\"", tag, "\",", "\n"] : ExceptT ε m Unit)
      (Script.ofLines [tagLine tag]).text := by
    unfold tagLine
    refine Writes.congr (writes_print _) ?_
    simp [String.append_assoc, -String.reduceAppend]
  unfold emitTable tableLines
  refine Writes.congr ((writes_print _).bind ((writes_forM htag _).bind (writes_print _))) ?_
  have hlines : table.map tagLine = table.flatMap fun tag => [tagLine tag] :=
    List.map_eq_flatMap
  rw [hlines]
  simp [String.append_assoc, -String.reduceAppend]

theorem writes_references (table candidates : List String) :
    Writes (printSeparated ", "
        (candidates.map fun tag => ["self::TAGS[", toString (table.idxOf tag), "]"]) :
      ExceptT ε m Unit)
      (", ".intercalate (candidates.map (tagReference table))) := by
  unfold tagReference
  refine Writes.congr (writes_printSeparated _ _) ?_
  simp [Function.comp_def, String.append_assoc, -String.reduceAppend]

theorem follows_emitResolver [Journal m] (r : Registry) (table : List String)
    (command : Command) :
    Follows (emitResolver r table command : ExceptT ε m Unit) (resolver r table command) := by
  unfold emitResolver resolver lines
  dsimp only
  generalize Signature.ofCommand command = s
  rw [Script.ofLog_append, List.append_assoc]
  refine (follows_logAll _).bind ((follows_logAll _).bind (Writes.follows ?_))
  refine Writes.congr ((writes_print _).bind (s.writes_emitParams.bind ((writes_print _).bind
    (s.writes_emitReturn.bind ((writes_print _).bind ((writes_print _).bind
      ((writes_references _ _).bind ((writes_print _).bind ((writes_print _).bind
        (s.writes_emitArguments.bind ((writes_print _).bind (writes_print _)))))))))))) ?_
  simp [String.append_assoc, -String.reduceAppend]

theorem follows_emit [Journal m] (r : Registry) :
    Follows (emit r : ExceptT ε m Unit) (script r) := by
  have hresolvers := follows_forM (m := m) (follows_emitResolver r (tagTable r)) r.commands
  have htable := (writes_emitTable (m := m) (tagTable r)).follows
  unfold emit script
  refine Follows.congr ((follows_emitHeader boilerplate ?_).bind (htable.bind hresolvers)) ?_
  · exact List.cons_ne_nil _ _
  · rw [← List.append_assoc, ← Script.ofLines_append]
    rfl

end Resolver

/-! ### All artifacts -/

namespace Artifact

def script : Artifact → Registry → Script
  | .types, _ => Primitive.script
  | .constants, r => Constant.script r
  | .commands, r => CallSurface.script r
  | .loaders, r => Resolver.script r

theorem follows_emit [Journal m] (artifact : Artifact) (r : Registry) :
    Follows (artifact.emit r : ExceptT ε m Unit) (artifact.script r) := by
  cases artifact with
  | types => exact Primitive.follows_emit
  | constants => exact Constant.follows_emit r
  | commands => exact CallSurface.follows_emit r
  | loaders => exact Resolver.follows_emit r

end Artifact

/-! ### Pages -/

/-- A page takes all bytes and all entries. -/
theorem run_perform_page (requests : List Request) (page : Page) :
    ∃ page' : Page,
      (perform requests : ExceptT Empty (StateM Page) Unit).run.run page = (.ok (), page') ∧
      Utf8.ofString page'.text =
        Utf8.ofString page.text ++ bytesOf (requests.flatMap Request.effects) ∧
      page'.entries.reverse =
        page.entries.reverse ++ entriesOf (requests.flatMap Request.effects) := by
  induction requests generalizing page with
  | nil => exact ⟨page, rfl, (List.append_nil _).symm, (List.append_nil _).symm⟩
  | cons request requests ih =>
      rw [List.flatMap_cons, bytesOf_append, entriesOf_append]
      cases request with
      | write piece =>
          obtain ⟨page', hrun, htext, hlog⟩ := ih { page with text := page.text ++ piece }
          refine ⟨page', hrun, ?_, ?_⟩
          · rw [htext, Utf8.ofString_append, List.append_assoc, Request.effects, textEffects,
              bytesOf_map_byte]
          · rw [hlog, Request.effects, textEffects, entriesOf_map_byte, List.nil_append]
      | log entry =>
          obtain ⟨page', hrun, htext, hlog⟩ := ih { page with entries := entry :: page.entries }
          refine ⟨page', hrun, htext, ?_⟩
          rw [hlog, List.reverse_cons, List.append_assoc]
          rfl

namespace Artifact

theorem page_eq (artifact : Artifact) (r : Registry) :
    (artifact.page r).text = (artifact.script r).text ∧
      (artifact.page r).entries.reverse = (artifact.script r).log := by
  obtain ⟨requests, hemit, heffects⟩ :=
    follows_emit (m := StateM Page) artifact r
  obtain ⟨page, hrun, htext, hlog⟩ := run_perform_page requests { }
  rw [← hemit] at hrun
  have hpage : artifact.page r = page := congrArg Prod.snd hrun
  rw [heffects, Script.bytesOf_effects] at htext
  rw [heffects, Script.entriesOf_effects] at hlog
  rw [hpage]
  exact ⟨Utf8.ofString_injective htext, hlog⟩

theorem text_eq (artifact : Artifact) (r : Registry) :
    artifact.text r = (artifact.script r).text :=
  (artifact.page_eq r).1

theorem log_eq (artifact : Artifact) (r : Registry) : artifact.log r = (artifact.script r).log :=
  (artifact.page_eq r).2

theorem bytesOf_script (artifact : Artifact) (r : Registry) :
    bytesOf (artifact.script r).effects = Utf8.ofString (artifact.text r) := by
  rw [Script.bytesOf_effects, text_eq]

theorem length_bytesOf_script (artifact : Artifact) (r : Registry) :
    (bytesOf (artifact.script r).effects).length = (artifact.text r).utf8ByteSize := by
  rw [bytesOf_script, Utf8.length_ofString]

theorem entriesOf_script (artifact : Artifact) (r : Registry) :
    entriesOf (artifact.script r).effects = artifact.log r := by
  rw [Script.entriesOf_effects, log_eq]

end Artifact

end LazyGL.Binding
