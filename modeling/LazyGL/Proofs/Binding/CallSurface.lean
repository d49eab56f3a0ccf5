import LazyGL.Proofs.Binding.Emission
import LazyGL.Proofs.Binding.Resolver
import Mathlib.Data.List.Basic

/-!
The artifacts of the call surfaces and of the resolvers, side by side. Each
block of lines is read back with nothing but the name of its command, and what
is read is compared: the faces of a command and its resolver have the same
parameters, pass on the same arguments and give the same result.
-/

namespace LazyGL.Binding

/-! ### Reading -/

/-- What the faces of a command say. Parameters are given with the bracket that
closes them and with the clause for the result. -/
structure Surface where
  /-- The parameters of the type of the entry point. -/
  pointer : String
  /-- The parameters of the positional function. -/
  positional : String
  /-- What the positional function passes on. -/
  forwarded : String
  /-- The lines between the brackets of the structure. -/
  body : List String
  /-- The clause for the result of the call with named arguments. -/
  result : String
  /-- The names that this call takes out of the structure. -/
  pattern : String
  /-- What this call passes on. -/
  named : String

/-- The fields of a structure: what its public lines declare. -/
def Surface.fields (s : Surface) : List String :=
  s.body.filterMap (between? "    pub " ",")

structure Passing where
  /-- The parameters, with the bracket that closes them and the clause for the
  result. -/
  signature : String
  /-- What the resolver passes on. -/
  arguments : String

namespace CallSurface

def callFront (margin name : String) : String :=
  margin ++ "unsafe \x7b std::mem::transmute::<*mut c_void, PFN_" ++ name ++ ">(cell::" ++ name ++
    ".get())("

def surface? (name : String) (block : List String) : Option Surface :=
  match block with
  | blank :: pointer :: blank₁ :: inline :: positional :: forwarded :: close :: blank₂ :: note ::
      struct :: rest =>
    match rest.reverse with
    | end₁ :: end₂ :: named :: pattern :: call :: inline₁ :: implementation :: blank₃ :: end₃ ::
        body =>
      if [blank, blank₁, inline, close, blank₂, note, struct] =
          ["", "", "#[inline]", "\x7d", "", "/// Named arguments of [`" ++ name ++ "`].",
            "pub struct " ++ name ++ "Args \x7b"] ∧
        [end₃, blank₃, implementation, inline₁, end₂, end₁] =
          ["\x7d", "", "impl " ++ name ++ "Args \x7b", "    #[inline]", "    \x7d", "\x7d"] then do
        let pointer ←
          between? ("pub type PFN_" ++ name ++ " = unsafe extern \"system\" fn(") ";" pointer
        let positional ← between? ("pub unsafe fn " ++ name ++ "(") " \x7b" positional
        let forwarded ← between? (callFront "    " name) ") \x7d" forwarded
        let result ← between? "    pub unsafe fn call(self)" " \x7b" call
        let pattern ← between? "        let Self \x7b " " \x7d = self;" pattern
        let named ← between? (callFront "        " name) ") \x7d" named
        some ⟨pointer, positional, forwarded, body.reverse, result, pattern, named⟩
      else none
    | _ => none
  | _ => none

end CallSurface

namespace Resolver

def passing? (name : String) (block : List String) : Option Passing :=
  match block with
  | [blank, signature, _, call, close] =>
    if blank = "" ∧ close = "\x7d" then do
      let signature ← between? ("pub unsafe extern \"system\" fn " ++ name ++ "(") " \x7b" signature
      let arguments ←
        between? ("    unsafe \x7b std::mem::transmute::<*mut c_void, commands::PFN_" ++ name ++
          ">(self::cell::" ++ name ++ ".get())(") ") \x7d" call
      some ⟨signature, arguments⟩
    else none
  | _ => none

end Resolver

/-! ### What is read -/

def declared (command : Command) : List String :=
  command.params.map fun param => param.name ++ ": " ++ (Target.ofParam param.base param.shape).text

def comments (param : Param) : List String :=
  (param.group.map fun group => "    /// Group: `" ++ group ++ "`.").toList ++
    (param.length.map fun length => "    /// Length: `" ++ length ++ "`.").toList

theorem paramList_ofCommand (command : Command) :
    (Signature.ofCommand command).paramList = ", ".intercalate (declared command) := by
  simp [Signature.paramList, Signature.ofCommand, declared, Function.comp_def]

theorem argumentList_ofCommand (command : Command) :
    (Signature.ofCommand command).argumentList =
      ", ".intercalate (command.params.map Param.name) := by
  simp [Signature.argumentList, Signature.ofCommand, Function.comp_def]

theorem between?_of_eq {front back text inner : String} (h : text = front ++ inner ++ back) :
    between? front back text = some inner := by
  rw [h, between?_append]

namespace CallSurface

variable {command : Command}

def fields (command : Command) : List String :=
  command.params.flatMap fun param => (comments param).flatMap textLines ++
    ["    pub " ++ (param.name ++ ": " ++ (Target.ofParam param.base param.shape).text) ++ ","]

theorem oneLine_call (h : SingleLine command) :
    OneLine (call command.name (.ofCommand command)) := by
  have harguments := oneLine_argumentList h
  unfold call
  simp only [oneLine_append, h.name, harguments, and_true]
  exact ⟨⟨⟨oneLine_literal, oneLine_literal⟩, oneLine_literal⟩, oneLine_literal⟩

theorem oneLine_pointerType (h : SingleLine command) :
    ∀ line ∈ pointerType command.name (.ofCommand command), OneLine line := by
  have hparams := oneLine_paramList h
  have hreturn := oneLine_returnClause h
  simp only [pointerType, List.forall_mem_cons, oneLine_append, h.name, hparams, hreturn, and_true]
  exact ⟨oneLine_literal,
    ⟨⟨⟨oneLine_literal, oneLine_literal⟩, oneLine_literal⟩, oneLine_literal⟩,
    List.forall_mem_nil _⟩

theorem oneLine_positional (h : SingleLine command) :
    ∀ line ∈ positional command.name (.ofCommand command), OneLine line := by
  have hparams := oneLine_paramList h
  have hreturn := oneLine_returnClause h
  have hcall := oneLine_call h
  simp only [positional, List.forall_mem_cons, oneLine_append, h.name, hparams, hreturn, hcall,
    and_true]
  exact ⟨oneLine_literal, oneLine_literal,
    ⟨⟨⟨oneLine_literal, oneLine_literal⟩, oneLine_literal⟩, oneLine_literal⟩,
    oneLine_literal, oneLine_literal, List.forall_mem_nil _⟩

theorem oneLine_namedCall (h : SingleLine command) :
    ∀ line ∈ namedCall command.name (.ofCommand command), OneLine line := by
  have harguments := oneLine_argumentList h
  have hreturn := oneLine_returnClause h
  have hcall := oneLine_call h
  simp only [namedCall, List.forall_mem_cons, oneLine_append, h.name, harguments, hreturn, hcall,
    and_true]
  exact ⟨oneLine_literal, ⟨oneLine_literal, oneLine_literal⟩, oneLine_literal,
    ⟨oneLine_literal, oneLine_literal⟩, ⟨oneLine_literal, oneLine_literal⟩,
    oneLine_literal, oneLine_literal, oneLine_literal, List.forall_mem_nil _⟩

/-- Comments may go over several lines, and a field is one. -/
theorem textLines_field {param : Param} (h : OneLine param.name ∧ OneLine param.base) :
    (field param (.ofParam param.base param.shape)).flatMap textLines =
      (comments param).flatMap textLines ++
        ["    pub " ++ (param.name ++ ": " ++ (Target.ofParam param.base param.shape).text) ++
          ","] := by
  have htarget := oneLine_target (oneLineTarget_ofParam h.2 param.shape)
  have hline : OneLine ("    pub " ++ param.name ++ ": " ++
      (Target.ofParam param.base param.shape).text ++ ",") := by
    simp only [oneLine_append, h.1, htarget, and_true]
    exact ⟨⟨oneLine_literal, oneLine_literal⟩, oneLine_literal⟩
  rw [field, List.flatMap_append, List.flatMap_singleton, textLines_of_oneLine hline]
  simp only [comments, String.append_assoc]

theorem textLines_arguments (h : SingleLine command) :
    (arguments command.name (.ofCommand command)).flatMap textLines =
      ["", "/// Named arguments of [`" ++ command.name ++ "`].",
        "pub struct " ++ command.name ++ "Args \x7b"] ++ fields command ++ ["\x7d"] := by
  have hfront : ∀ line ∈ ["", "/// Named arguments of [`" ++ command.name ++ "`].",
      "pub struct " ++ command.name ++ "Args \x7b"], OneLine line := by
    simp only [List.forall_mem_cons, oneLine_append, h.name, and_true]
    exact ⟨oneLine_literal, ⟨oneLine_literal, oneLine_literal⟩,
      ⟨oneLine_literal, oneLine_literal⟩, List.forall_mem_nil _⟩
  have hclose : ["\x7d"].flatMap textLines = ["\x7d"] := rfl
  rw [arguments, List.flatMap_append, List.flatMap_append, flatMap_textLines hfront, hclose,
    Signature.ofCommand, List.flatMap_map, List.flatMap_assoc, fields]
  congr 2
  exact List.flatMap_congr fun param hparam => textLines_field (h.params param hparam)

/-- The lines of a block. -/
theorem textLines_block (h : SingleLine command) :
    (lines command).flatMap textLines =
      pointerType command.name (.ofCommand command) ++
        positional command.name (.ofCommand command) ++
        (["", "/// Named arguments of [`" ++ command.name ++ "`].",
            "pub struct " ++ command.name ++ "Args \x7b"] ++ fields command ++ ["\x7d"]) ++
        namedCall command.name (.ofCommand command) := by
  simp only [lines, List.flatMap_append, textLines_arguments h,
    flatMap_textLines (oneLine_pointerType h), flatMap_textLines (oneLine_positional h),
    flatMap_textLines (oneLine_namedCall h)]

theorem between?_call (margin name : String) (s : Signature) :
    between? (callFront margin name) ") \x7d" (margin ++ call name s) = some s.argumentList := by
  refine between?_of_eq ?_
  unfold callFront call
  simp only [String.append_assoc]

/-- What the faces of a command say. -/
theorem surface?_block (h : SingleLine command) :
    let s := Signature.ofCommand command
    surface? command.name ((lines command).flatMap textLines) =
      some
        { pointer := s.paramList ++ ")" ++ s.returnClause
          positional := s.paramList ++ ")" ++ s.returnClause
          forwarded := s.argumentList
          body := fields command
          result := s.returnClause
          pattern := s.argumentList
          named := s.argumentList } := by
  intro s
  have hpointer :
      between? ("pub type PFN_" ++ command.name ++ " = unsafe extern \"system\" fn(") ";"
        ("pub type PFN_" ++ command.name ++ " = unsafe extern \"system\" fn(" ++ s.paramList ++
          ")" ++ s.returnClause ++ ";") = some (s.paramList ++ ")" ++ s.returnClause) :=
    between?_of_eq (by simp only [String.append_assoc])
  have hpositional : between? ("pub unsafe fn " ++ command.name ++ "(") " \x7b"
      ("pub unsafe fn " ++ command.name ++ "(" ++ s.paramList ++ ")" ++ s.returnClause ++ " \x7b") =
        some (s.paramList ++ ")" ++ s.returnClause) :=
    between?_of_eq (by simp only [String.append_assoc])
  -- the structure is what is left between the lines at both ends
  have hblock : (lines command).flatMap textLines =
      "" :: ("pub type PFN_" ++ command.name ++ " = unsafe extern \"system\" fn(" ++ s.paramList ++
        ")" ++ s.returnClause ++ ";") :: "" :: "#[inline]" ::
      ("pub unsafe fn " ++ command.name ++ "(" ++ s.paramList ++ ")" ++ s.returnClause ++
        " \x7b") ::
      ("    " ++ call command.name s) :: "\x7d" :: "" ::
      ("/// Named arguments of [`" ++ command.name ++ "`].") ::
      ("pub struct " ++ command.name ++ "Args \x7b") ::
      (fields command ++ ["\x7d"] ++ namedCall command.name s) := by
    rw [textLines_block h]
    simp only [pointerType, positional, List.cons_append, List.nil_append, List.append_assoc, s]
  have hrest : (fields command ++ ["\x7d"] ++ namedCall command.name s).reverse =
      "\x7d" :: "    \x7d" :: ("        " ++ call command.name s) ::
      ("        let Self \x7b " ++ s.argumentList ++ " \x7d = self;") ::
      ("    pub unsafe fn call(self)" ++ s.returnClause ++ " \x7b") :: "    #[inline]" ::
      ("impl " ++ command.name ++ "Args \x7b") :: "" :: "\x7d" :: (fields command).reverse := by
    simp [namedCall]
  rw [hblock]
  unfold surface?
  simp only [hrest, and_self, if_true, hpointer, hpositional, between?_call, between?_append,
    List.reverse_reverse, Option.bind_eq_bind, Option.bind_some]

end CallSurface

namespace Resolver

theorem passing?_lines (table candidates : List String) (command : Command) :
    let s := Signature.ofCommand command
    passing? command.name (lines table candidates command) =
      some ⟨s.paramList ++ ")" ++ s.returnClause, s.argumentList⟩ := by
  intro s
  have hsignature : between? ("pub unsafe extern \"system\" fn " ++ command.name ++ "(") " \x7b"
      ("pub unsafe extern \"system\" fn " ++ command.name ++ "(" ++ s.paramList ++ ")" ++
        s.returnClause ++ " \x7b") = some (s.paramList ++ ")" ++ s.returnClause) :=
    between?_of_eq (by simp only [String.append_assoc])
  have hlines : ∃ resolve, lines table candidates command = ["",
      "pub unsafe extern \"system\" fn " ++ command.name ++ "(" ++ s.paramList ++ ")" ++
        s.returnClause ++ " \x7b", resolve,
      "    unsafe \x7b std::mem::transmute::<*mut c_void, commands::PFN_" ++ command.name ++
        ">(self::cell::" ++ command.name ++ ".get())(" ++ s.argumentList ++ ") \x7d",
      "\x7d"] := ⟨_, rfl⟩
  obtain ⟨resolve, hlines⟩ := hlines
  rw [hlines]
  unfold passing?
  simp only [and_self, if_true, hsignature, between?_append, Option.bind_eq_bind, Option.bind_some]

end Resolver

/-! ### The artifacts -/

structure InStep (command : Command) (s : Surface) (passing : Passing) : Prop where
  pointer : s.pointer = ", ".intercalate (declared command) ++ ")" ++ s.result
  positional : s.positional = s.pointer
  signature : passing.signature = s.pointer
  /-- Between its brackets the structure has a line for each parameter, with
  the comments above it. -/
  body : s.body = command.params.flatMap fun param => (comments param).flatMap textLines ++
    ["    pub " ++ (param.name ++ ": " ++ (Target.ofParam param.base param.shape).text) ++ ","]
  /-- No other line is taken for a field, unless a comment goes over several
  lines. -/
  fields : (∀ param ∈ command.params, ∀ comment ∈ comments param, OneLine comment) →
    s.fields = declared command
  pattern : s.pattern = ", ".intercalate (command.params.map Param.name)
  forwarded : s.forwarded = s.pattern
  named : s.named = s.pattern
  arguments : passing.arguments = s.pattern
  result : s.result ≠ "" → s.result = " -> " ++ (Target.ofReturn command.returnType).text
  absent : s.result = "" ↔ Target.ofReturn command.returnType = .void

theorem returnClause_eq_empty (s : Signature) : s.returnClause = "" ↔ s.result = .void := by
  unfold Signature.returnClause
  cases s.result with
  | void => simp [Target.isVoid]
  | _ => simp [Target.isVoid]

theorem returnClause_of_ne_empty {s : Signature} (h : s.returnClause ≠ "") :
    s.returnClause = " -> " ++ s.result.text := by
  unfold Signature.returnClause at h ⊢
  split at h
  · exact absurd rfl h
  · rename_i hresult
    rw [if_neg hresult]

/-- A comment is not taken for a field. -/
theorem between?_comment {param : Param} :
    ∀ comment ∈ comments param, between? "    pub " "," comment = none := by
  have hcomment (mark text : String) :
      between? "    pub " "," ("    /// " ++ mark ++ text ++ "`.") = none := by
    simp [between?, afterFront?]
  intro comment hmem
  simp only [comments, List.mem_append, Option.mem_toList, Option.map_eq_some_iff] at hmem
  rcases hmem with ⟨group, -, rfl⟩ | ⟨length, -, rfl⟩
  · exact hcomment "Group: `" group
  · exact hcomment "Length: `" length

theorem filterMap_fields {command : Command}
    (h : ∀ param ∈ command.params, ∀ comment ∈ comments param, OneLine comment) :
    (CallSurface.fields command).filterMap (between? "    pub " ",") = declared command := by
  rw [CallSurface.fields, List.filterMap_flatMap, declared, List.map_eq_flatMap]
  refine List.flatMap_congr fun param hparam => ?_
  rw [flatMap_textLines (h param hparam), List.filterMap_append,
    List.filterMap_eq_nil_iff.mpr between?_comment, List.filterMap_cons, between?_append]
  rfl

namespace CallSurface

theorem lines_script (r : Registry) :
    (script r).lines = header ++ r.commands.flatMap lines ++ cells r.commands := by
  simp [script, surface]

theorem oneLine_header : ∀ line ∈ header, OneLine line := by
  unfold header
  repeat refine List.forall_mem_cons.mpr ⟨oneLine_literal, ?_⟩
  exact List.forall_mem_nil _

theorem oneLine_cells {commands : List Command} (h : ∀ command ∈ commands, OneLine command.name) :
    ∀ line ∈ cells commands, OneLine line := by
  have hcell : ∀ command ∈ commands, OneLine (cell command) := by
    intro command hcommand
    have hname := h command hcommand
    unfold cell
    simp only [oneLine_append, hname, and_true]
    exact ⟨⟨oneLine_literal, oneLine_literal⟩, oneLine_literal⟩
  simp only [cells, List.forall_mem_append, List.forall_mem_map]
  refine ⟨⟨?_, hcell⟩, by decide⟩
  repeat refine List.forall_mem_cons.mpr ⟨oneLine_literal, ?_⟩
  exact List.forall_mem_nil _

end CallSurface

/-- What is read of the two blocks of a command is in step. -/
theorem inStep_blocks {command : Command} (h : SingleLine command)
    (table candidates : List String) :
    ∃ s passing,
      CallSurface.surface? command.name ((CallSurface.lines command).flatMap textLines) = some s ∧
        Resolver.passing? command.name (Resolver.lines table candidates command) = some passing ∧
        InStep command s passing := by
  refine ⟨_, _, CallSurface.surface?_block h, Resolver.passing?_lines table candidates command, ?_⟩
  constructor
  case pointer => rw [paramList_ofCommand]
  case positional => rfl
  case signature => rfl
  case body => rfl
  case fields => exact filterMap_fields
  case pattern => exact argumentList_ofCommand command
  case forwarded => rfl
  case named => rfl
  case arguments => rfl
  case result => exact returnClause_of_ne_empty
  case absent => exact returnClause_eq_empty (.ofCommand command)

/-- The lines of the two artifacts, in blocks. After its header that of the call
surfaces has a block for each command, and then the cells, each of which starts
out with the resolver; after its table that of the resolvers has a block for
each command. All this stands in the order of the commands, and the two blocks
of a command are in step. -/
structure BlocksInStep (r : Registry) (commands loaders : List String)
    (block resolver : Command → List String) : Prop where
  commands : commands = CallSurface.header ++ r.commands.flatMap block ++
    (["", "#[allow(non_upper_case_globals)]", "pub mod cell \x7b", "    use std::ffi::c_void;", "",
        "    use super::FnCell;", ""] ++
      r.commands.map (fun command =>
        "    pub static " ++ command.name ++ ": FnCell = FnCell::new(super::super::loaders::" ++
          command.name ++ " as *mut c_void);") ++
      ["\x7d"]) ++ [""]
  loaders : loaders =
    (Resolver.header ++ Resolver.tableLines (Resolver.tagTable r)).flatMap textLines ++
      r.commands.flatMap resolver ++ [""]
  inStep : ∀ command ∈ r.commands, ∃ s passing,
    CallSurface.surface? command.name (block command) = some s ∧
      Resolver.passing? command.name (resolver command) = some passing ∧
      InStep command s passing

theorem textLines_commands {r : Registry} (h : ∀ command ∈ r.commands, SingleLine command) :
    textLines (Artifact.commands.text r) =
      CallSurface.header ++
        (r.commands.flatMap fun command => (CallSurface.lines command).flatMap textLines) ++
        CallSurface.cells r.commands ++ [""] := by
  have hcells := CallSurface.oneLine_cells fun command hcommand => (h command hcommand).name
  rw [Artifact.text_eq, Artifact.script, Script.textLines_script, CallSurface.lines_script,
    List.flatMap_append, List.flatMap_append, flatMap_textLines CallSurface.oneLine_header,
    flatMap_textLines hcells, List.flatMap_assoc]

theorem textLines_resolvers {r : Registry} (h : ∀ command ∈ r.commands, SingleLine command) :
    textLines (Artifact.loaders.text r) =
      (Resolver.header ++ Resolver.tableLines (Resolver.tagTable r)).flatMap textLines ++
        (r.commands.flatMap fun command =>
          Resolver.lines (Resolver.tagTable r) (r.candidateTags command.name) command) ++ [""] := by
  have hresolvers : ∀ line ∈ r.commands.flatMap (fun command =>
      Resolver.lines (Resolver.tagTable r) (r.candidateTags command.name) command), OneLine line :=
    List.forall_mem_flatMap.mpr fun command hcommand =>
      Resolver.oneLine_lines _ _ (h command hcommand)
  rw [Artifact.text_eq, Artifact.script, Script.textLines_script, Resolver.lines_script,
    List.flatMap_append, flatMap_textLines hresolvers]
  simp only [Resolver.tableLines, List.append_assoc]

/-- If the names and the types stay on one line, the artifacts of the call
surfaces and of the resolvers are in step. -/
theorem commands_inStep_loaders (r : Registry)
    (hcommands : ∀ command ∈ r.commands, SingleLine command) :
    ∃ block resolver, BlocksInStep r (textLines (Artifact.commands.text r))
      (textLines (Artifact.loaders.text r)) block resolver :=
  ⟨_, _, textLines_commands hcommands, textLines_resolvers hcommands,
    fun command hcommand => inStep_blocks (hcommands command hcommand) _ _⟩

/-- A command with a result and a commented parameter, and one without either. -/
def pointerAndFlush : Registry where
  commands :=
    [⟨"glMap", "void *", [⟨"target", "GLenum", "!?", some "BufferTarget", none⟩,
      ⟨"data", "void", "constvoid*?", none, some "size"⟩]⟩, ⟨"glFlush", "void", []⟩]
  versions := ⟨[("glFlush", [.added .core 1 0])], by decide⟩

def pointerAndFlushFaces : List String :=
  ["",
    "pub type PFN_glMap = unsafe extern \"system\" fn(" ++
      "target: GLenum, data: *const std::ffi::c_void) -> *mut std::ffi::c_void;",
    "",
    "#[inline]",
    "pub unsafe fn glMap(target: GLenum, data: *const std::ffi::c_void)" ++
      " -> *mut std::ffi::c_void \x7b",
    "    unsafe \x7b std::mem::transmute::<*mut c_void, PFN_glMap>(cell::glMap.get())" ++
      "(target, data) \x7d",
    "\x7d",
    "",
    "/// Named arguments of [`glMap`].",
    "pub struct glMapArgs \x7b",
    "    /// Group: `BufferTarget`.",
    "    pub target: GLenum,",
    "    /// Length: `size`.",
    "    pub data: *const std::ffi::c_void,",
    "\x7d",
    "",
    "impl glMapArgs \x7b",
    "    #[inline]",
    "    pub unsafe fn call(self) -> *mut std::ffi::c_void \x7b",
    "        let Self \x7b target, data \x7d = self;",
    "        unsafe \x7b std::mem::transmute::<*mut c_void, PFN_glMap>(cell::glMap.get())" ++
      "(target, data) \x7d",
    "    \x7d",
    "\x7d",
    "",
    "pub type PFN_glFlush = unsafe extern \"system\" fn();",
    "",
    "#[inline]",
    "pub unsafe fn glFlush() \x7b",
    "    unsafe \x7b std::mem::transmute::<*mut c_void, PFN_glFlush>(cell::glFlush.get())() \x7d",
    "\x7d",
    "",
    "/// Named arguments of [`glFlush`].",
    "pub struct glFlushArgs \x7b",
    "\x7d",
    "",
    "impl glFlushArgs \x7b",
    "    #[inline]",
    "    pub unsafe fn call(self) \x7b",
    "        let Self \x7b  \x7d = self;",
    "        unsafe \x7b std::mem::transmute::<*mut c_void, PFN_glFlush>" ++
      "(cell::glFlush.get())() \x7d",
    "    \x7d",
    "\x7d"]

def pointerAndFlushResolvers : List String :=
  ["",
    "pub unsafe extern \"system\" fn glMap(target: GLenum, data: *const std::ffi::c_void)" ++
      " -> *mut std::ffi::c_void \x7b",
    "    self::cell::glMap.set(self::resolve(c\"glMap\", &[]));",
    "    unsafe \x7b std::mem::transmute::<*mut c_void, commands::PFN_glMap>" ++
      "(self::cell::glMap.get())(target, data) \x7d",
    "\x7d",
    "",
    "pub unsafe extern \"system\" fn glFlush() \x7b",
    "    self::cell::glFlush.set(self::resolve(c\"glFlush\", &[self::TAGS[0]]));",
    "    unsafe \x7b std::mem::transmute::<*mut c_void, commands::PFN_glFlush>" ++
      "(self::cell::glFlush.get())() \x7d",
    "\x7d"]

theorem commands_inStep_loaders_pointerAndFlush :
    (∀ command ∈ pointerAndFlush.commands, SingleLine command) ∧
      ∃ block resolver, BlocksInStep pointerAndFlush
          (textLines (Artifact.commands.text pointerAndFlush))
          (textLines (Artifact.loaders.text pointerAndFlush)) block resolver ∧
        pointerAndFlush.commands.flatMap block = pointerAndFlushFaces ∧
        pointerAndFlush.commands.flatMap resolver = pointerAndFlushResolvers := by
  have hcommands : ∀ command ∈ pointerAndFlush.commands, SingleLine command := by
    simp only [pointerAndFlush, List.forall_mem_cons]
    exact ⟨⟨by decide, by decide, by decide⟩, ⟨by decide, by decide, by decide⟩,
      List.forall_mem_nil _⟩
  obtain ⟨block, resolver, hblocks⟩ := commands_inStep_loaders pointerAndFlush hcommands
  refine ⟨hcommands, block, resolver, hblocks, ?_, ?_⟩
  · -- what stands around the faces is known
    have hfaces := hblocks.commands.symm.trans (textLines_commands hcommands)
    simp only [List.append_assoc] at hfaces
    have hfaces := List.append_cancel_right (List.append_cancel_left hfaces)
    rw [hfaces, List.flatMap_congr fun command hcommand =>
      CallSurface.textLines_block (hcommands command hcommand)]
    decide +kernel
  · have hresolvers := hblocks.loaders.symm.trans (textLines_resolvers hcommands)
    have hresolvers := List.append_cancel_left (List.append_cancel_right hresolvers)
    have htags : (pointerAndFlush.commands.flatMap fun command =>
        pointerAndFlush.candidateTags command.name) = ["+1.0"] := by decide +kernel
    have htable : Resolver.tagTable pointerAndFlush = ["+1.0"] := by
      rw [Resolver.tagTable, htags, List.mergeSort_singleton]
      rfl
    rw [hresolvers, htable]
    decide +kernel

end LazyGL.Binding
