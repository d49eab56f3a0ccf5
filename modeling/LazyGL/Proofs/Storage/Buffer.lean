import LazyGL.Proofs.Binding.Script
import LazyGL.Proofs.Storage.Disk
import LazyGL.Storage.Buffer

/-!
What comes to a file through a buffer. Once a file has been opened, its content
and what is pending for it make up the text so far, and nothing else on the disk
changes; whether a piece stays in the buffer or goes past it makes no difference
to that. So at the end, when nothing is pending, the file holds the whole text.
-/

namespace LazyGL.Buffered

variable {path : Path} {place : List String} {start d d' d'' : Disk} {text more : ByteArray}
  {buffer buffer' buffer'' : Buffer}

/-- The place of an open file holds all of a text but what is pending, and the
disk is as it was at the start anywhere else. -/
structure Holds (path : Path) (place : List String) (start : Disk) (text : ByteArray)
    (buffer : Buffer) (d : Disk) : Prop where
  target : buffer.path = path
  located : d.locate path = .ok place
  content : ∃ content, d.node? place = some (.file content) ∧
    content ++ buffer.pending.toUTF8 = text
  frame : ∀ other, other ≠ place → d.node? other = start.node? other

/-- The file gets another content. -/
theorem Holds.put (h : Holds path place start text buffer d) {content : ByteArray}
    {pending : String} (hcontent : content ++ pending.toUTF8 = more) :
    Holds path place start more { buffer with pending := pending }
      (d.put place (.file content)) := by
  obtain ⟨old, hold, -⟩ := h.content
  have hplace : place ≠ [] := by
    rintro rfl
    cases hold
  refine ⟨h.target, ?_, ⟨content, ?_, hcontent⟩, fun other hother => ?_⟩
  · refine Disk.locate_mono (fun other hother => ?_) h.located
    rw [Disk.node?_put _ hplace, hother, if_neg]
    rintro rfl
    cases hold.symm.trans hother
  · rw [Disk.node?_put _ hplace, if_pos rfl]
  · rw [Disk.node?_put _ hplace, if_neg hother, h.frame other hother]

/-- Without fault, whatever has been logged before, an operation leads from a
buffer and a disk to others. -/
def Leads (x : ExceptT FileFault (Buffered (StateM Session)) Unit) (buffer : Buffer) (d : Disk)
    (buffer' : Buffer) (d' : Disk) : Prop :=
  ∀ s : Session, s.disk = d →
    ∃ s', x.run.run buffer s = ((.ok (), buffer'), s') ∧ s'.disk = d'

def Adds (x : ExceptT FileFault (Buffered (StateM Session)) Unit) (more : ByteArray) : Prop :=
  ∀ path place start text buffer d, Holds path place start text buffer d →
    ∃ buffer' d', Leads x buffer d buffer' d' ∧
      Holds path place start (text ++ more) buffer' d'

section Rules

/-- What follows an operation goes on in the buffer and the session that it
leaves. -/
theorem run_bind_of_ok {ε : Type} {x y : ExceptT ε (Buffered (StateM Session)) Unit}
    {s s' s'' : Session} (hx : x.run.run buffer s = ((.ok (), buffer'), s'))
    (hy : y.run.run buffer' s' = ((.ok (), buffer''), s'')) :
    (x >>= fun _ => y).run.run buffer s = ((.ok (), buffer''), s'') := by
  change (ExceptT.bindCont (fun _ => y) (x.run.run buffer s).1.1).run (x.run.run buffer s).1.2
    (x.run.run buffer s).2 = _
  rw [hx]
  exact hy

variable {x y : ExceptT FileFault (Buffered (StateM Session)) Unit}

theorem Leads.bind (hx : Leads x buffer d buffer' d') (hy : Leads y buffer' d' buffer'' d'') :
    Leads (x >>= fun _ => y) buffer d buffer'' d'' := by
  intro s hs
  obtain ⟨s', hrun, hs'⟩ := hx s hs
  obtain ⟨s'', hrun', hs''⟩ := hy s' hs'
  exact ⟨s'', run_bind_of_ok hrun hrun', hs''⟩

theorem leads_pure : Leads (pure ()) buffer d buffer d :=
  fun s hs => ⟨s, rfl, hs⟩

theorem Leads.get {f : Buffer → ExceptT FileFault (Buffered (StateM Session)) Unit}
    (h : Leads (f buffer) buffer d buffer' d') :
    Leads (MonadState.get >>= f) buffer d buffer' d' :=
  h

theorem leads_set : Leads (set buffer') buffer d buffer' d :=
  fun s hs => ⟨s, rfl, hs⟩

theorem Adds.bind (hx : Adds x text) (hy : Adds y more) :
    Adds (x >>= fun _ => y) (text ++ more) := by
  intro path place start before buffer d h
  obtain ⟨buffer', d', hfirst, h'⟩ := hx _ _ _ _ _ _ h
  obtain ⟨buffer'', d'', hsecond, h''⟩ := hy _ _ _ _ _ _ h'
  exact ⟨buffer'', d'', hfirst.bind hsecond, ByteArray.append_assoc ▸ h''⟩

theorem adds_pure : Adds (pure ()) .empty := by
  intro path place start text buffer d h
  exact ⟨buffer, d, leads_pure, by rwa [ByteArray.append_empty]⟩

/-- The log is not on the disk. -/
theorem adds_log (entry : Log.Entry) : Adds (ExceptT.lift (Journal.log entry)) .empty := by
  intro path place start text buffer d h
  refine ⟨buffer, d, fun s hs => ?_, by rwa [ByteArray.append_empty]⟩
  exact ⟨{ s with entries := entry :: s.entries }, rfl, hs⟩

end Rules

/-! ### Pieces -/

theorem leads_send (h : Holds path place start text buffer d) {content : ByteArray}
    (hcontent : d.node? place = some (.file content)) (piece : String) :
    Leads (send piece) buffer d buffer (d.put place (.file (content ++ piece.toUTF8))) := by
  rintro s rfl
  have happend := Disk.append_file (h.target ▸ h.located) hcontent piece.toUTF8
  let outcome := Session.changeDisk (fun d => d.append buffer.path piece.toUTF8) s
  have houtcome : outcome =
      (.ok (), { s with disk := s.disk.put place (.file (content ++ piece.toUTF8)) }) := by
    simp only [outcome, Session.changeDisk, happend]
  refine ⟨{ s with disk := s.disk.put place (.file (content ++ piece.toUTF8)) }, ?_, rfl⟩
  change ((outcome.1, buffer), outcome.2) = _
  rw [houtcome]

/-- Once nothing is pending, the file holds the whole text. -/
theorem leads_flush (h : Holds path place start text buffer d) :
    ∃ d', Leads flush buffer d { buffer with pending := "" } d' ∧
      Holds path place start text { buffer with pending := "" } d' := by
  by_cases hempty : buffer.pending = ""
  · have hbuffer : { buffer with pending := "" } = buffer := by rw [← hempty]
    rw [hbuffer]
    refine ⟨d, .get ?_, h⟩
    rw [if_pos hempty]
    exact leads_pure
  · obtain ⟨content, hcontent, htext⟩ := h.content
    have hwhole : content ++ buffer.pending.toUTF8 ++ "".toUTF8 = text := by
      rw [htext]
      exact ByteArray.append_empty
    refine ⟨_, .get ?_, h.put hwhole⟩
    rw [if_neg hempty]
    exact (leads_send h hcontent buffer.pending).bind leads_set

/-- A piece that is as large as the buffer finds nothing pending. -/
theorem leads_makeRoom (h : Holds path place start text buffer d) (piece : String) :
    ∃ pending d', Leads (makeRoom piece) buffer d { buffer with pending := pending } d' ∧
      Holds path place start text { buffer with pending := pending } d' ∧
      (Buffer.capacity ≤ piece.utf8ByteSize → pending = "") := by
  by_cases hroom : buffer.pending.utf8ByteSize + piece.utf8ByteSize ≤ Buffer.capacity
  · refine ⟨buffer.pending, d, .get ?_, h, fun hlarge => ?_⟩
    · rw [if_pos hroom]
      exact leads_pure
    · exact String.utf8ByteSize_eq_zero_iff.mp (by omega)
  · obtain ⟨d', hflush, hholds⟩ := leads_flush h
    refine ⟨"", d', .get ?_, hholds, fun _ => rfl⟩
    rw [if_neg hroom]
    exact hflush

theorem adds_put (piece : String) : Adds (put piece) piece.toUTF8 := by
  intro path place start text buffer d h
  obtain ⟨pending, d', hroom, hholds, hlarge⟩ := leads_makeRoom h piece
  obtain ⟨content, hcontent, htext⟩ := hholds.content
  by_cases hpast : Buffer.capacity ≤ piece.utf8ByteSize
  · obtain rfl := hlarge hpast
    have hwhole : content ++ piece.toUTF8 ++ "".toUTF8 = text ++ piece.toUTF8 := by
      rw [← htext]
      exact ByteArray.append_empty.trans (congrArg (· ++ _) ByteArray.append_empty.symm)
    refine ⟨_, _, hroom.bind (.get ?_), hholds.put hwhole⟩
    rw [if_pos hpast]
    exact leads_send hholds hcontent piece
  · refine ⟨{ buffer with pending := pending ++ piece }, d', hroom.bind (.get ?_), hholds.target,
      hholds.located, ⟨content, hcontent, ?_⟩, hholds.frame⟩
    · rw [if_neg hpast]
      exact leads_set
    · rw [← htext, ByteArray.append_assoc]
      exact congrArg (content ++ ·) String.toByteArray_append

/-! ### Emissions -/

theorem run_toFile_of_ok {ε : Type} {x : ExceptT ε (Buffered (StateM Session)) Unit}
    {s s' s'' : Session} (hx : x.run.run { path } s = ((.ok (), buffer), s'))
    (hflush : (flush : ExceptT FileFault (Buffered (StateM Session)) Unit).run.run buffer s' =
      ((.ok (), buffer'), s'')) :
    (toFile path x).run s = (.ok (), s'') := by
  change ((x.run.run { path } s).1.1,
    ((flush : ExceptT FileFault (Buffered (StateM Session)) Unit).run.run
      (x.run.run { path } s).1.2 (x.run.run { path } s).2).2) = _
  rw [hx, hflush]

open Binding in
theorem adds_perform (requests : List Request) :
    Adds (perform requests) (bytesOf (requests.flatMap Request.effects)).toByteArray := by
  induction requests with
  | nil => exact adds_pure
  | cons request requests ih =>
      rw [List.flatMap_cons, bytesOf_append, List.toByteArray_append]
      cases request with
      | write piece =>
          rw [Request.effects, textEffects, bytesOf_map_byte, ← Utf8.toUTF8_eq]
          exact (adds_put piece).bind ih
      | log entry => exact (adds_log entry).bind ih

end LazyGL.Buffered
