import LazyGL.Generation
import LazyGL.Proofs.Binding.Emission
import LazyGL.Proofs.Storage.Buffer
import Mathlib.Control.Monad.Basic

/-!
What a generation leaves on a disk. The registry is read and checked before
anything is written. Then the output directory is made, and the artifacts are
written one after the other, each as a whole; what carries the induction is that
the artifacts so far are stored and that nothing else has changed since the
start. The first artifact whose place is a directory ends the run.
-/

namespace LazyGL

/-! ### Sizes -/

structure Census.AtLeast (census minima : Census) : Prop where
  groups : minima.groups ≤ census.groups
  enums : minima.enums ≤ census.enums
  bitfields : minima.bitfields ≤ census.bitfields
  values : minima.values ≤ census.values
  commands : minima.commands ≤ census.commands

theorem Registry.shortfalls_isEmpty (r : Registry) (minima : Census) :
    (r.shortfalls minima).isEmpty ↔ r.census.AtLeast minima := by
  simp only [Registry.shortfalls, Census.named, List.isEmpty_iff, List.filterMap_eq_nil_iff,
    List.zip_cons_cons, List.zip_nil_right, List.forall_mem_cons, List.not_mem_nil]
  constructor
  · intro h
    simp at h
    exact ⟨h.1, h.2.1, h.2.2.1, h.2.2.2.1, h.2.2.2.2⟩
  · intro h
    simp [h.groups, h.enums, h.bitfields, h.values, h.commands]

namespace Generation

open Binding (Artifact)

/-! ### Runs on a disk -/

/-- From a disk a run comes to a result and leaves a disk, whatever has been
logged before. -/
def Runs {α : Type} (x : ExceptT Failure (StateM Session) α) (d : Disk) (result : Except Failure α)
    (d' : Disk) : Prop :=
  ∀ s : Session, s.disk = d → ∃ s', x.run s = (result, s') ∧ s'.disk = d'

section Rules

variable {α β : Type} {d d' d'' : Disk} {x : ExceptT Failure (StateM Session) α}
  {f : α → ExceptT Failure (StateM Session) β}

/-- What follows a run goes on with its result in the session that it leaves. -/
theorem run_bind (s : Session) :
    (x >>= f).run s = ExceptT.bindCont f (x.run s).1 (x.run s).2 :=
  rfl

theorem Runs.bind {a : α} {result : Except Failure β} (hx : Runs x d (.ok a) d')
    (hf : Runs (f a) d' result d'') : Runs (x >>= f) d result d'' := by
  intro s hs
  obtain ⟨s', hrun, hs'⟩ := hx s hs
  obtain ⟨s'', hrun', hs''⟩ := hf s' hs'
  refine ⟨s'', ?_, hs''⟩
  rw [run_bind, hrun]
  exact hrun'

theorem Runs.bind_error {failure : Failure} (hx : Runs x d (.error failure) d') :
    Runs (x >>= f) d (.error failure) d' := by
  intro s hs
  obtain ⟨s', hrun, hs'⟩ := hx s hs
  refine ⟨s', ?_, hs'⟩
  rw [run_bind, hrun]
  rfl

theorem runs_pure (a : α) : Runs (pure a) d (.ok a) d :=
  fun s hs => ⟨s, rfl, hs⟩

theorem runs_throw (failure : Failure) :
    Runs (throw failure : ExceptT Failure (StateM Session) α) d (.error failure) d :=
  fun s hs => ⟨s, rfl, hs⟩

/-- The log is not on the disk. -/
theorem runs_logAll (entries : List Log.Entry) :
    Runs (logAll entries : ExceptT Failure (StateM Session) Unit) d (.ok ()) d := by
  unfold logAll
  induction entries with
  | nil => exact runs_pure ()
  | cons entry entries ih =>
      have hentry : Runs (ExceptT.lift (Journal.log entry)) d (.ok ()) d :=
        fun s hs => ⟨{ s with entries := entry :: s.entries }, rfl, hs⟩
      exact hentry.bind ih

theorem runs_load (failure : LoadFault → Failure) (path : Path) :
    Runs (orFail failure (Files.load path)) d ((Session.loadFrom d path).mapError failure) d := by
  rintro s rfl
  exact ⟨s, rfl, rfl⟩

theorem runs_change_ok {change : Disk → Except FileFault Disk}
    (failure : FileFault → Failure) (h : change d = .ok d') :
    Runs (orFail failure (Session.changeDisk change)) d (.ok ()) d' := by
  rintro s rfl
  refine ⟨{ s with disk := d' }, ?_, rfl⟩
  have hchange : Session.changeDisk change s = (.ok (), { s with disk := d' }) := by
    rw [Session.changeDisk, h]
  change ((Session.changeDisk change s).1.mapError failure, (Session.changeDisk change s).2) = _
  rw [hchange]
  rfl

theorem runs_change_error {change : Disk → Except FileFault Disk} {fault : FileFault}
    (failure : FileFault → Failure) (h : change d = .error fault) :
    Runs (orFail failure (Session.changeDisk change)) d (.error (failure fault)) d := by
  rintro s rfl
  refine ⟨s, ?_, rfl⟩
  have hchange : Session.changeDisk change s = (.error fault, s) := by
    rw [Session.changeDisk, h]
  change ((Session.changeDisk change s).1.mapError failure, (Session.changeDisk change s).2) = _
  rw [hchange]
  rfl

end Rules

/-- What a fault would be called does not matter if there is none. -/
theorem run_orFail_of_ok {x : ExceptT FileFault (Buffered (StateM Session)) Unit}
    {buffer buffer' : Buffer} {s s' : Session} (failure : FileFault → Failure)
    (h : x.run.run buffer s = ((.ok (), buffer'), s')) :
    (orFail failure x.run : ExceptT Failure (Buffered (StateM Session)) Unit).run.run buffer s =
      ((.ok (), buffer'), s') := by
  change (((x.run.run buffer s).1.1.mapError failure, (x.run.run buffer s).1.2),
    (x.run.run buffer s).2) = _
  rw [h]
  rfl

/-- An emission to a file that has been made empty. What it adds is the content
of the file at its end, and nothing else has changed. -/
theorem runs_toFile {d : Disk} {path : Path} {place : List String} {text : ByteArray}
    {x : ExceptT FileFault (Buffered (StateM Session)) Unit} (failure : FileFault → Failure)
    (hx : Buffered.Adds x text) (hlocated : d.locate path = .ok place)
    (hempty : d.node? place = some (.file .empty)) :
    ∃ d', Runs (Buffered.toFile path do
          orFail failure x.run
          orFail .unflushed Buffered.flush.run) d (.ok ()) d' ∧
      ∀ other, d'.node? other = if other = place then some (.file text) else d.node? other := by
  have hopened : Buffered.Holds path place d .empty { path } d :=
    ⟨rfl, hlocated, ⟨.empty, hempty, ByteArray.append_empty⟩, fun _ _ => rfl⟩
  obtain ⟨buffer, d₁, hemit, hholds⟩ := hx _ _ _ _ _ _ hopened
  obtain ⟨d₂, hflush, hholds⟩ := Buffered.leads_flush hholds
  -- the last attempt has nothing to do
  obtain ⟨d₃, hlast, hholds⟩ := Buffered.leads_flush hholds
  refine ⟨d₃, fun s hs => ?_, fun other => ?_⟩
  · obtain ⟨s₁, hemit, hs₁⟩ := hemit s hs
    obtain ⟨s₂, hflush, hs₂⟩ := hflush s₁ hs₁
    obtain ⟨s₃, hlast, hs₃⟩ := hlast s₂ hs₂
    have hemission := Buffered.run_bind_of_ok (run_orFail_of_ok failure hemit)
      (run_orFail_of_ok .unflushed hflush)
    exact ⟨s₃, Buffered.run_toFile_of_ok hemission hlast, hs₃⟩
  · split
    · next hother =>
        obtain ⟨content, hcontent, htext⟩ := hholds.content
        have htext : content = text := by
          rw [← ByteArray.empty_append (b := text), ← htext]
          exact ByteArray.append_empty.symm
        rw [hother, hcontent, htext]
    · next hother => exact hholds.frame other hother

/-! ### Places below a root directory -/

def registryPlace (here : List String) : List String := here ++ ["gl.xml"]

def outputPlace (here : List String) : List String := here ++ ["generated"]

def artifactPlace (here : List String) (artifact : Artifact) : List String :=
  outputPlace here ++ [artifact.fileName]

theorem artifactPlace_inj {here : List String} {artifact artifact' : Artifact} :
    artifactPlace here artifact = artifactPlace here artifact' ↔ artifact = artifact' := by
  constructor
  · intro h
    have hname : artifact.fileName = artifact'.fileName := by simpa [artifactPlace] using h
    revert hname
    cases artifact <;> cases artifact' <;> decide
  · rintro rfl
    rfl

theorem artifactPlace_ne_output (here : List String) (artifact : Artifact) :
    artifactPlace here artifact ≠ outputPlace here := by
  simp [artifactPlace]

theorem registryPlace_ne_output (here : List String) : registryPlace here ≠ outputPlace here := by
  simp [registryPlace, outputPlace]

theorem registryPlace_ne_artifact (here : List String) (artifact : Artifact) :
    registryPlace here ≠ artifactPlace here artifact := by
  intro h
  have hlength := congrArg List.length h
  simp [registryPlace, artifactPlace, outputPlace] at hlength

theorem plain_fileName (artifact : Artifact) : Disk.Plain artifact.fileName := by
  cases artifact <;> exact ⟨by decide, by decide⟩

/-- The root directory of a workspace has been found on a disk, and the paths of
the artifacts are short enough. -/
structure Rooted (root : Path) (here : List String) (d : Disk) : Prop where
  way : d.descend [] root.names = .ok here
  paths : ∀ artifact, Disk.checkPath ((Workspace.ofRoot root).artifactPath artifact) = .ok ()

section Rooted

variable {root : Path} {here : List String} {d d' : Disk} {artifact : Artifact}

theorem Rooted.mono (h : Rooted root here d)
    (hkeep : ∀ place, d.node? place = some .directory → d'.node? place = some .directory) :
    Rooted root here d' :=
  ⟨Disk.descend_mono hkeep h.way, h.paths⟩

theorem names_registry (root : Path) :
    (Workspace.ofRoot root).registry.names = root.names ++ ["gl.xml"] :=
  Path.names_join root (by decide)

theorem names_output (root : Path) :
    (Workspace.ofRoot root).output.names = root.names ++ ["generated"] :=
  Path.names_join root (by decide)

theorem names_artifactPath (root : Path) (artifact : Artifact) :
    ((Workspace.ofRoot root).artifactPath artifact).names =
      (Workspace.ofRoot root).output.names ++ [artifact.fileName] := by
  cases artifact <;> exact Path.names_join _ (by decide)

/-- The path of the output directory is shorter than that of an artifact. -/
theorem Rooted.check_output (h : Rooted root here d) :
    Disk.checkPath (Workspace.ofRoot root).output = .ok () := by
  obtain ⟨slash, hfront⟩ := (Workspace.ofRoot root).output.exists_front
  have hlong := h.paths .types
  rw [Workspace.artifactPath, Path.join_eq _ _ (by decide), hfront, String.append_assoc] at hlong
  have hshort := Disk.checkPath_append _ _ "" hlong (Nat.zero_le _) (by simp)
  rwa [String.append_empty] at hshort

/-- The path of the registry is shorter than that of the output directory. -/
theorem Rooted.check_registry (h : Rooted root here d) :
    Disk.checkPath (Workspace.ofRoot root).registry = .ok () := by
  have hlong := h.check_output
  have houtput : (Workspace.ofRoot root).output = ⟨root.front ++ "generated"⟩ :=
    Path.join_eq root "generated" (by decide)
  have hregistry : (Workspace.ofRoot root).registry = ⟨root.front ++ "gl.xml"⟩ :=
    Path.join_eq root "gl.xml" (by decide)
  rw [houtput] at hlong
  rw [hregistry]
  exact Disk.checkPath_append root.front "generated" "gl.xml" hlong (by decide) (by decide)

/-! ### The registry -/

theorem Rooted.locate_registry (h : Rooted root here d) :
    d.locate (Workspace.ofRoot root).registry = .ok (registryPlace here) :=
  Disk.Below.locate
    ⟨h.check_registry, ⟨root.names, names_registry root, h.way⟩, by decide, by decide⟩

def Describes (d : Disk) (here : List String) (r : Registry) : Prop :=
  ∃ content parsed, d.node? (registryPlace here) = some (.file content) ∧
    Registry.ofDocument content.data.toList = .ok parsed ∧ r = parsed.normalize

theorem runs_loadRegistry_ok (h : Rooted root here d) {r : Registry} (hr : Describes d here r) :
    Runs (loadRegistry (Workspace.ofRoot root).registry) d (.ok r) d := by
  obtain ⟨content, parsed, hfile, hparsed, rfl⟩ := hr
  have hload : Session.loadFrom d (Workspace.ofRoot root).registry = .ok content := by
    simp only [Session.loadFrom, h.locate_registry, hfile]
  have hread := runs_load (d := d) (loadFailure (Workspace.ofRoot root).registry)
    (Workspace.ofRoot root).registry
  rw [hload] at hread
  refine hread.bind ?_
  rw [hparsed]
  exact (runs_logAll _).bind (runs_pure _)

theorem runs_loadRegistry_error (h : Rooted root here d) (hr : ∀ r, ¬ Describes d here r) :
    ∃ failure, Runs (loadRegistry (Workspace.ofRoot root).registry) d (.error failure) d := by
  have hread := runs_load (d := d) (loadFailure (Workspace.ofRoot root).registry)
    (Workspace.ofRoot root).registry
  cases hload : Session.loadFrom d (Workspace.ofRoot root).registry with
  | error fault =>
      rw [hload] at hread
      exact ⟨_, hread.bind_error⟩
  | ok content =>
      have hfile : d.node? (registryPlace here) = some (.file content) := by
        simp only [Session.loadFrom, h.locate_registry] at hload
        split at hload
        · cases hload
        · cases hload
        · next hnode =>
            cases hload
            exact hnode
      rw [hload] at hread
      cases hparsed : Registry.ofDocument content.data.toList with
      | error fault =>
          refine ⟨.unparsed (Workspace.ofRoot root).registry fault, hread.bind ?_⟩
          rw [hparsed]
          exact runs_throw _
      | ok parsed => exact absurd ⟨content, parsed, hfile, hparsed, rfl⟩ (hr parsed.normalize)

theorem runs_checkSize_ok {r : Registry} {minima : Census} (h : r.census.AtLeast minima) :
    Runs (checkSize r minima) d (.ok ()) d := by
  unfold checkSize
  rw [if_pos ((r.shortfalls_isEmpty minima).mpr h)]
  exact runs_logAll _

theorem runs_checkSize_error {r : Registry} {minima : Census} (h : ¬ r.census.AtLeast minima) :
    Runs (checkSize r minima) d (.error (.truncated (r.shortfalls minima))) d := by
  unfold checkSize
  rw [if_neg (mt (r.shortfalls_isEmpty minima).mp h)]
  exact runs_throw _

/-! ### The artifacts -/

/-- The output directory is there, some artifacts hold their texts, and nothing
else has changed. -/
structure Stored (here : List String) (r : Registry) (done : List Artifact) (d d' : Disk) :
    Prop where
  output : d'.node? (outputPlace here) = some .directory
  texts : ∀ artifact ∈ done,
    d'.node? (artifactPlace here artifact) = some (.file (artifact.text r).toUTF8)
  frame : ∀ place, place ≠ outputPlace here → (∀ artifact ∈ done,
    place ≠ artifactPlace here artifact) → d'.node? place = d.node? place

variable {r : Registry} {done artifacts : List Artifact} {minima : Census}

/-- The place of an artifact that has not been stored is as it was. -/
theorem Stored.other (h : Stored here r done d d') (hnew : artifact ∉ done) :
    d'.node? (artifactPlace here artifact) = d.node? (artifactPlace here artifact) := by
  refine h.frame _ (artifactPlace_ne_output here artifact) fun artifact' hmem hplace => ?_
  rw [artifactPlace_inj] at hplace
  exact hnew (hplace ▸ hmem)

/-- No directory is lost if no artifact has replaced one. -/
theorem Stored.keep (h : Stored here r done d d')
    (hfree : ∀ artifact ∈ done, d.node? (artifactPlace here artifact) ≠ some .directory)
    (place : List String) (hplace : d.node? place = some .directory) :
    d'.node? place = some .directory := by
  by_cases houtput : place = outputPlace here
  · rw [houtput]
    exact h.output
  · rw [h.frame place houtput, hplace]
    rintro artifact hmem rfl
    exact hfree artifact hmem hplace

theorem Rooted.locate_artifact (h : Rooted root here d)
    (houtput : d.node? (outputPlace here) = some .directory) (artifact : Artifact) :
    d.locate ((Workspace.ofRoot root).artifactPath artifact) =
      .ok (artifactPlace here artifact) := by
  refine Disk.Below.locate
    ⟨h.paths artifact, ⟨_, names_artifactPath root artifact, ?_⟩, plain_fileName artifact⟩
  rw [names_output, Disk.descend_append, h.way]
  exact Disk.descend_plain ⟨by decide, by decide⟩ houtput

/-- A directory in the place of an artifact stays there. -/
theorem runs_writeArtifact_error (h : Rooted root here d)
    (houtput : d.node? (outputPlace here) = some .directory)
    (hdirectory : d.node? (artifactPlace here artifact) = some .directory) (minima : Census)
    (r : Registry) :
    Runs (writeArtifact { Workspace.ofRoot root with minima := minima } r artifact) d
      (.error (.uncreated ((Workspace.ofRoot root).artifactPath artifact) .isDirectory)) d :=
  (runs_change_error _
    (Disk.create_directory (h.locate_artifact houtput artifact) hdirectory)).bind_error

/-- Where there is no directory something else can be put. -/
theorem Rooted.put (h : Rooted root here d) {place : List String} (hne : place ≠ [])
    (hnode : d.node? place ≠ some .directory) (node : Node) :
    Rooted root here (d.put place node) := by
  refine h.mono fun other hother => ?_
  rw [Disk.node?_put _ hne, if_neg, hother]
  rintro rfl
  exact hnode hother

/-- The places of artifacts that were no directories are none later on. -/
theorem Stored.free (h : Stored here r done d d')
    (hfree : d.node? (artifactPlace here artifact) ≠ some .directory) :
    d'.node? (artifactPlace here artifact) ≠ some .directory := by
  by_cases hmem : artifact ∈ done
  · rw [h.texts artifact hmem]
    exact nofun
  · rwa [h.other hmem]

/-- The text of one more artifact has come to its place. -/
theorem Stored.append (h : Stored here r done d d') {after : Disk}
    (hafter : ∀ place, after.node? place = if place = artifactPlace here artifact then
      some (.file (artifact.text r).toUTF8) else d'.node? place) :
    Stored here r (done ++ [artifact]) d after := by
  refine ⟨?_, ?_, ?_⟩
  · rw [hafter, if_neg (artifactPlace_ne_output here artifact).symm, h.output]
  · intro artifact' hmem
    rw [hafter]
    split
    · next hplace =>
        rw [artifactPlace_inj.mp hplace]
    · next hplace =>
        refine h.texts artifact' ((List.mem_append.mp hmem).resolve_right fun hlast => ?_)
        rw [List.mem_singleton.mp hlast] at hplace
        exact hplace rfl
  · intro other hother hothers
    rw [List.forall_mem_append, List.forall_mem_singleton] at hothers
    rw [hafter, if_neg hothers.2]
    exact h.frame other hother hothers.1

/-- What is written of an artifact is its text. -/
theorem adds_emit (artifact : Artifact) (r : Registry) :
    Buffered.Adds (artifact.emit r) (artifact.text r).toUTF8 := by
  obtain ⟨requests, hemit, heffects⟩ :=
    Artifact.follows_emit (m := Buffered (StateM Session)) artifact r
  have hadds := Buffered.adds_perform requests
  rwa [← hemit, heffects, Artifact.bytesOf_script, ← Utf8.toUTF8_eq] at hadds

/-- One more artifact is stored. -/
theorem runs_writeArtifact_ok (h : Rooted root here d) (hstored : Stored here r done d d')
    (hfree : ∀ artifact' ∈ done ++ [artifact],
      d.node? (artifactPlace here artifact') ≠ some .directory) (minima : Census) :
    ∃ d'', Runs (writeArtifact { Workspace.ofRoot root with minima := minima } r artifact) d'
      (.ok ()) d'' ∧ Stored here r (done ++ [artifact]) d d'' := by
  obtain ⟨hdone, hartifact⟩ := List.forall_mem_append.mp hfree
  rw [List.forall_mem_singleton] at hartifact
  let place := artifactPlace here artifact
  have hne : place ≠ [] := by simp [place, artifactPlace]
  have hnode := hstored.free hartifact
  -- the file is first made empty
  have hrooted := h.mono (hstored.keep hdone)
  have hcreate := Disk.create_file (hrooted.locate_artifact hstored.output artifact) hnode
  let opened := d'.put place (.file .empty)
  have hopened : Rooted root here opened := hrooted.put hne hnode _
  have hthere : opened.node? (outputPlace here) = some .directory := by
    rw [Disk.node?_put _ hne, if_neg (artifactPlace_ne_output here artifact).symm, hstored.output]
  have hempty : opened.node? place = some (.file .empty) := by
    rw [Disk.node?_put _ hne, if_pos rfl]
  obtain ⟨after, hwrite, hafter⟩ := runs_toFile
    (.unwritten ((Workspace.ofRoot root).artifactPath artifact)) (adds_emit artifact r)
    (hopened.locate_artifact hthere artifact) hempty
  refine ⟨after, ?_, hstored.append fun other => ?_⟩
  · exact (runs_change_ok _ hcreate).bind (hwrite.bind (runs_logAll _))
  · rw [hafter, Disk.node?_put _ hne]
    split <;> rfl

/-- Artifacts none of whose places is a directory are all stored. -/
theorem runs_writeAll (h : Rooted root here d) (hstored : Stored here r done d d')
    (hfree : ∀ artifact ∈ done ++ artifacts,
      d.node? (artifactPlace here artifact) ≠ some .directory) (minima : Census) :
    ∃ d'', Runs (artifacts.forM (writeArtifact { Workspace.ofRoot root with minima := minima } r))
      d' (.ok ()) d'' ∧ Stored here r (done ++ artifacts) d d'' := by
  induction artifacts generalizing done d' with
  | nil =>
      rw [List.append_nil]
      exact ⟨d', runs_pure (), hstored⟩
  | cons artifact artifacts ih =>
      rw [List.append_cons] at hfree ⊢
      obtain ⟨d₁, hfirst, hstored⟩ := runs_writeArtifact_ok h hstored
        (List.forall_mem_append.mp hfree).1 minima
      obtain ⟨d₂, hrest, hstored⟩ := ih hstored hfree
      exact ⟨d₂, hfirst.bind hrest, hstored⟩

/-! ### Whole runs -/

theorem Rooted.below_output (h : Rooted root here d) :
    d.Below (Workspace.ofRoot root).output here "generated" :=
  ⟨h.check_output, ⟨root.names, names_output root, h.way⟩, by decide, by decide⟩

theorem runs_output_error (h : Rooted root here d) {content : ByteArray}
    (hfile : d.node? (outputPlace here) = some (.file content)) :
    Runs (orFail (.uncreated (Workspace.ofRoot root).output)
      (Files.makeDirectories (Workspace.ofRoot root).output)) d
      (.error (.uncreated (Workspace.ofRoot root).output .alreadyExists)) d := by
  unfold outputPlace at hfile
  refine runs_change_error _ ?_
  rw [h.below_output.makeDirectories, hfile]

/-- The output directory is made unless it is there. -/
theorem runs_output_ok (h : Rooted root here d)
    (hfile : ∀ content, d.node? (outputPlace here) ≠ some (.file content)) (r : Registry) :
    ∃ d', Runs (orFail (.uncreated (Workspace.ofRoot root).output)
      (Files.makeDirectories (Workspace.ofRoot root).output)) d (.ok ()) d' ∧
        Stored here r [] d d' := by
  have hmake := h.below_output.makeDirectories
  cases hnode : d.node? (here ++ ["generated"]) with
  | none =>
      rw [hnode] at hmake
      have hne : outputPlace here ≠ [] := by simp [outputPlace]
      refine ⟨d.put (outputPlace here) .directory, runs_change_ok _ hmake, ?_, by simp, ?_⟩
      · rw [Disk.node?_put _ hne, if_pos rfl]
      · intro place hplace _
        rw [Disk.node?_put _ hne, if_neg hplace]
  | some node =>
      rw [hnode] at hmake
      cases node with
      | file content => exact absurd hnode (hfile content)
      | directory => exact ⟨d, runs_change_ok _ hmake, hnode, by simp, fun _ _ _ => rfl⟩

def Passes (d : Disk) (here : List String) (minima : Census) (r : Registry) : Prop :=
  Describes d here r ∧ r.census.AtLeast minima

/-- The registry is not one of the artifacts. -/
theorem Stored.passes (h : Stored here r done d d') (hr : Passes d here minima r) :
    Passes d' here minima r := by
  have hregistry : d'.node? (registryPlace here) = d.node? (registryPlace here) :=
    h.frame _ (registryPlace_ne_output here) fun artifact _ =>
      registryPlace_ne_artifact here artifact
  obtain ⟨⟨content, parsed, hcontent, hparsed⟩, hsize⟩ := hr
  exact ⟨⟨content, parsed, hregistry.trans hcontent, hparsed⟩, hsize⟩

/-- Artifacts that are stored once more are as they were. -/
theorem Stored.eq_of_stored {d'' : Disk} (h : Stored here r done d d')
    (h' : Stored here r done d' d'') (place : List String) : d''.node? place = d'.node? place := by
  by_cases houtput : place = outputPlace here
  · rw [houtput, h'.output, h.output]
  by_cases hartifact : ∃ artifact ∈ done, place = artifactPlace here artifact
  · obtain ⟨artifact, hmem, rfl⟩ := hartifact
    rw [h'.texts artifact hmem, h.texts artifact hmem]
  · exact h'.frame place houtput fun artifact hmem hplace => hartifact ⟨artifact, hmem, hplace⟩

/-- A run whose registry does not pass, or that cannot make its output
directory, changes nothing. -/
theorem runs_generate_error (h : Rooted root here d)
    (hearly : (∀ r, ¬ Passes d here minima r) ∨
      ∃ content, d.node? (outputPlace here) = some (.file content)) :
    ∃ failure, Runs (generate { Workspace.ofRoot root with minima := minima }) d
      (.error failure) d := by
  by_cases hdescribes : ∃ r, Describes d here r
  · obtain ⟨r, hr⟩ := hdescribes
    have hload := runs_loadRegistry_ok h hr
    by_cases hsize : r.census.AtLeast minima
    · obtain hnone | ⟨content, hfile⟩ := hearly
      · exact absurd ⟨hr, hsize⟩ (hnone r)
      · have houtput := runs_output_error h hfile
        exact ⟨_, hload.bind ((runs_checkSize_ok hsize).bind houtput.bind_error)⟩
    · exact ⟨_, hload.bind (runs_checkSize_error hsize).bind_error⟩
  · obtain ⟨failure, hload⟩ := runs_loadRegistry_error h (not_exists.mp hdescribes)
    exact ⟨failure, hload.bind_error⟩

/-- A run whose registry passes stores the artifacts up to the first one whose
place is a directory. -/
theorem runs_generate_before (h : Rooted root here d) (hr : Passes d here minima r)
    (hfile : ∀ content, d.node? (outputPlace here) ≠ some (.file content))
    {later : List Artifact} (hall : Artifact.all = artifacts ++ artifact :: later)
    (hfree : ∀ artifact ∈ artifacts, d.node? (artifactPlace here artifact) ≠ some .directory)
    (hdirectory : d.node? (artifactPlace here artifact) = some .directory) :
    ∃ after, Runs (generate { Workspace.ofRoot root with minima := minima }) d
      (.error (.uncreated ((Workspace.ofRoot root).artifactPath artifact) .isDirectory)) after ∧
        Stored here r artifacts d after := by
  obtain ⟨d', houtput, hstored⟩ := runs_output_ok h hfile r
  obtain ⟨after, hwrite, hstored⟩ := runs_writeAll h hstored hfree minima
  have hload := runs_loadRegistry_ok h hr.1
  have hkept := hstored.keep hfree
  have hstop := runs_writeArtifact_error (h.mono hkept) hstored.output (hkept _ hdirectory) minima r
  refine ⟨after, hload.bind ((runs_checkSize_ok hr.2).bind (houtput.bind ?_)), hstored⟩
  rw [hall, List.forM_eq_forM, List.forM_append]
  exact hwrite.bind hstop.bind_error

theorem runs_generate_ok (h : Rooted root here d) (hr : Passes d here minima r)
    (hfile : ∀ content, d.node? (outputPlace here) ≠ some (.file content))
    (hfree : ∀ artifact, d.node? (artifactPlace here artifact) ≠ some .directory) :
    ∃ after, Runs (generate { Workspace.ofRoot root with minima := minima }) d (.ok ()) after ∧
      Stored here r Artifact.all d after := by
  obtain ⟨d', houtput, hstored⟩ := runs_output_ok h hfile r
  obtain ⟨after, hwrite, hstored⟩ := runs_writeAll h hstored
    (fun artifact _ => hfree artifact) minima
  have hload := runs_loadRegistry_ok h hr.1
  exact ⟨after, hload.bind ((runs_checkSize_ok hr.2).bind (houtput.bind hwrite)), hstored⟩

end Rooted

/-- What a generation leaves on a disk, for any content of the root directory
and any minima. If the registry does not pass or the output directory cannot be
made, the run fails and nothing changes. Otherwise the artifacts are stored in
order up to the first one whose place is a directory, where the run fails; if
there is none, it succeeds, and so does another run, which changes nothing. -/
theorem generate_outcome {root : Path} {here : List String} {d : Disk}
    (hroot : d.descend [] root.names = .ok here)
    (hpaths : ∀ artifact,
      Disk.checkPath ((Workspace.ofRoot root).artifactPath artifact) = .ok ())
    (minima : Census) :
    let w : Workspace := { Workspace.ofRoot root with minima := minima }
    (((∀ r, ¬ Passes d here minima r) ∨
        ∃ content, d.node? (outputPlace here) = some (.file content)) →
      ∃ failure, Runs (generate w) d (.error failure) d) ∧
    ∀ r, Passes d here minima r →
      (∀ content, d.node? (outputPlace here) ≠ some (.file content)) →
        (∀ before artifact later, Artifact.all = before ++ artifact :: later →
          (∀ earlier ∈ before, d.node? (artifactPlace here earlier) ≠ some .directory) →
          d.node? (artifactPlace here artifact) = some .directory →
            ∃ after, Runs (generate w) d
                (.error (.uncreated (w.artifactPath artifact) .isDirectory)) after ∧
              Stored here r before d after ∧
              ∀ other ∈ artifact :: later, after.node? (artifactPlace here other) =
                d.node? (artifactPlace here other)) ∧
        ((∀ artifact, d.node? (artifactPlace here artifact) ≠ some .directory) →
          ∃ after, Runs (generate w) d (.ok ()) after ∧ Stored here r Artifact.all d after ∧
            ∃ again, Runs (generate w) after (.ok ()) again ∧
              ∀ place, again.node? place = after.node? place) := by
  intro w
  have hrooted : Rooted root here d := ⟨hroot, hpaths⟩
  refine ⟨runs_generate_error hrooted, fun r hr hfile => ⟨?_, fun hfree => ?_⟩⟩
  · intro before artifact later hall hfree hdirectory
    obtain ⟨after, hrun, hstored⟩ := runs_generate_before hrooted hr hfile hall hfree hdirectory
    refine ⟨after, hrun, hstored, fun other hother => hstored.other fun hmem => ?_⟩
    -- no artifact is written twice
    have hnodup : Artifact.all.Nodup := by decide
    rw [hall] at hnodup
    exact (List.nodup_append.mp hnodup).2.2 other hmem other hother rfl
  · obtain ⟨after, hrun, hstored⟩ := runs_generate_ok hrooted hr hfile hfree
    refine ⟨after, hrun, hstored, ?_⟩
    have hafter := hrooted.mono (hstored.keep fun artifact _ => hfree artifact)
    have hfile' (content : ByteArray) : after.node? (outputPlace here) ≠ some (.file content) := by
      rw [hstored.output]
      exact nofun
    obtain ⟨again, hrun', hstored'⟩ := runs_generate_ok hafter (hstored.passes hr) hfile'
      fun artifact => hstored.free (hfree artifact)
    exact ⟨again, hrun', hstored.eq_of_stored hstored'⟩

theorem generate_outcome_commands :
    let start : List (List String × Node) :=
      [(["w"], .directory), (["w", "gl.xml"], .file "<r/>".toUTF8),
        (["w", "generated"], .directory), (["w", "generated", "types.rs"], .file "old".toUTF8)]
    let w : Workspace := { Workspace.ofRoot ⟨"/w"⟩ with minima := ⟨0, 0, 0, 0, 0⟩ }
    (∃ after, Runs (generate w) ⟨start ++ [(["w", "generated", "commands.rs"], .directory)]⟩
        (.error (.uncreated ⟨"/w/generated/commands.rs"⟩ .isDirectory)) after ∧
      after.node? ["w", "generated", "types.rs"] = some (.file (Artifact.types.text { }).toUTF8) ∧
      after.node? ["w", "generated", "loaders.rs"] = none) ∧
    ∃ after, Runs (generate w) ⟨start⟩ (.ok ()) after ∧
      after.node? ["w", "generated", "types.rs"] = some (.file (Artifact.types.text { }).toUTF8) ∧
      after.node? ["w", "gl.xml"] = some (.file "<r/>".toUTF8) := by
  intro start w
  have hparsed : Registry.ofDocument "<r/>".toUTF8.data.toList = .ok { } := by decide +kernel
  have hpaths (artifact : Artifact) :
      Disk.checkPath ((Workspace.ofRoot ⟨"/w"⟩).artifactPath artifact) = .ok () := by
    cases artifact <;> rfl
  have hnormal : ({ } : Registry) = Registry.normalize { } := by decide +kernel
  have hsize : Census.AtLeast (Registry.census { }) ⟨0, 0, 0, 0, 0⟩ := by
    constructor <;> exact Nat.zero_le _
  constructor
  · let d : Disk := ⟨start ++ [(["w", "generated", "commands.rs"], .directory)]⟩
    have hroot : d.descend [] (Path.names ⟨"/w"⟩) = .ok ["w"] := rfl
    obtain ⟨-, hrun⟩ := generate_outcome hroot hpaths ⟨0, 0, 0, 0, 0⟩
    obtain ⟨after, hrun, hstored, hother⟩ :=
      (hrun { } ⟨⟨_, _, rfl, hparsed, hnormal⟩, hsize⟩ nofun).1
      [.types, .constants] .commands [.loaders] rfl
      (List.forall_mem_cons.mpr ⟨nofun, List.forall_mem_singleton.mpr nofun⟩) rfl
    exact ⟨after, hrun, hstored.texts .types (by decide), hother .loaders (by decide)⟩
  · have hroot : (Disk.mk start).descend [] (Path.names ⟨"/w"⟩) = .ok ["w"] := rfl
    obtain ⟨-, hrun⟩ := generate_outcome hroot hpaths ⟨0, 0, 0, 0, 0⟩
    obtain ⟨after, hrun, hstored, -⟩ := (hrun { } ⟨⟨_, _, rfl, hparsed, hnormal⟩, hsize⟩ nofun).2
      (fun artifact => by cases artifact <;> exact nofun)
    refine ⟨after, hrun, hstored.texts .types (by decide), ?_⟩
    exact hstored.frame ["w", "gl.xml"] (by decide) (by decide)

end Generation

end LazyGL
