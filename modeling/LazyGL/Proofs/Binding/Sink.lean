import LazyGL.Proofs.Binding.Emission

/-!
Sinks that run full. What an artifact does is a sequence of effects, each of them
one byte or one log entry, and a sink lets them happen up to the first byte for
which it has no room, however the bytes are put together into pieces. Main
statement: an artifact that is longer than the room is cut off there and fails,
with the log up to that byte, and any other one is written and logged as a whole.
-/

namespace LazyGL.Binding

/-! ### Effects -/

/-- The effects before the first byte for which there is no room. -/
def within (room : Nat) : List Effect → List Effect
  | [] => []
  | .entry e :: effects => .entry e :: within room effects
  | .byte b :: effects =>
    match room with
    | 0 => []
    | room + 1 => .byte b :: within room effects

theorem prefix_within (room : Nat) (effects : List Effect) : within room effects <+: effects := by
  induction effects generalizing room with
  | nil => exact List.prefix_rfl
  | cons effect effects ih =>
      cases effect with
      | entry e => exact (List.prefix_cons_inj _).mpr (ih room)
      | byte b =>
          cases room with
          | zero => exact List.nil_prefix
          | succ room => exact (List.prefix_cons_inj _).mpr (ih room)

/-- Entries take no room. -/
theorem bytesOf_within (room : Nat) (effects : List Effect) :
    bytesOf (within room effects) = (bytesOf effects).take room := by
  induction effects generalizing room with
  | nil => exact List.take_nil.symm
  | cons effect effects ih =>
      cases effect with
      | entry e => exact ih room
      | byte b =>
          cases room with
          | zero => rfl
          | succ room => exact congrArg (b :: ·) (ih room)

theorem within_of_le {room : Nat} {effects : List Effect}
    (h : (bytesOf effects).length ≤ room) : within room effects = effects := by
  induction effects generalizing room with
  | nil => rfl
  | cons effect effects ih =>
      cases effect with
      | entry e => exact congrArg (_ :: ·) (ih h)
      | byte b =>
          cases room with
          | zero => exact absurd h (Nat.not_succ_le_zero _)
          | succ room => exact congrArg (_ :: ·) (ih (Nat.le_of_succ_le_succ h))

/-- What does not fit as a whole ends before one of its bytes. -/
theorem exists_of_room_lt {room : Nat} {effects : List Effect}
    (h : room < (bytesOf effects).length) :
    ∃ b rest, effects = within room effects ++ .byte b :: rest := by
  induction effects generalizing room with
  | nil => exact absurd h (Nat.not_lt_zero _)
  | cons effect effects ih =>
      cases effect with
      | entry e =>
          obtain ⟨b, rest, hrest⟩ := ih h
          exact ⟨b, rest, congrArg (_ :: ·) hrest⟩
      | byte b =>
          cases room with
          | zero => exact ⟨b, effects, rfl⟩
          | succ room =>
              obtain ⟨last, rest, hrest⟩ := ih (Nat.lt_of_succ_lt_succ h)
              exact ⟨last, rest, congrArg (_ :: ·) hrest⟩

/-- Bytes that are written together either fit or go in as far as there is
room. -/
theorem within_bytes (room : Nat) (bytes : Bytes) (effects : List Effect) :
    within room (bytes.map .byte ++ effects) =
      if bytes.length ≤ room then bytes.map .byte ++ within (room - bytes.length) effects
      else (bytes.take room).map .byte := by
  induction bytes generalizing room with
  | nil => rfl
  | cons b bytes ih =>
      cases room with
      | zero => rfl
      | succ room =>
          rw [List.map_cons, List.cons_append, within, ih, List.length_cons, List.take_succ_cons,
            Nat.add_sub_add_right]
          simp only [Nat.add_le_add_iff_right]
          split <;> rfl

/-! ### Runs -/

theorem size_toUTF8 (text : String) : text.toUTF8.size = (Utf8.ofString text).length := by
  rw [Utf8.toUTF8_eq, List.size_toByteArray]

/-- A piece for which there is room. -/
theorem write_of_le {piece : String} {sink : Sink}
    (h : (Utf8.ofString piece).length ≤ sink.room) :
    (Writer.write piece : StateM Sink (Except Sink.Fault Unit)) sink =
      (.ok (), { sink with
        room := sink.room - (Utf8.ofString piece).length
        bytes := sink.bytes ++ (Utf8.ofString piece).toByteArray }) := by
  rw [← size_toUTF8] at h
  rw [← size_toUTF8, ← Utf8.toUTF8_eq]
  exact if_pos h

/-- A piece for which there is not. -/
theorem write_of_lt {piece : String} {sink : Sink}
    (h : sink.room < (Utf8.ofString piece).length) :
    (Writer.write piece : StateM Sink (Except Sink.Fault Unit)) sink =
      (.error .full, { sink with
        room := 0
        bytes := sink.bytes ++ ((Utf8.ofString piece).take sink.room).toByteArray }) := by
  rw [← size_toUTF8, ← Nat.not_le] at h
  rw [← Utf8.extract_toUTF8]
  exact if_neg h

/-- What follows a piece depends on whether the piece is taken. -/
theorem run_perform_write (piece : String) (requests : List Request) (sink : Sink) :
    (perform (.write piece :: requests) : ExceptT Sink.Fault (StateM Sink) Unit).run.run sink =
      let outcome := (Writer.write piece : StateM Sink (Except Sink.Fault Unit)) sink
      (ExceptT.bindCont (fun _ => perform requests) outcome.1 :
        StateM Sink (Except Sink.Fault Unit)) outcome.2 :=
  rfl

/-- A sink lets those effects happen for which it has room. -/
theorem run_perform_sink (requests : List Request) (sink : Sink) :
    ∃ sink' : Sink,
      (perform requests : ExceptT Sink.Fault (StateM Sink) Unit).run.run sink =
        (if sink.room < (bytesOf (requests.flatMap Request.effects)).length then .error .full
          else .ok (), sink') ∧
      sink'.bytes.data.toList = sink.bytes.data.toList ++
        bytesOf (within sink.room (requests.flatMap Request.effects)) ∧
      sink'.log = sink.log ++ entriesOf (within sink.room (requests.flatMap Request.effects)) := by
  induction requests generalizing sink with
  | nil => exact ⟨sink, rfl, (List.append_nil _).symm, (List.append_nil _).symm⟩
  | cons request requests ih =>
      rw [List.flatMap_cons]
      cases request with
      | write piece =>
          rw [run_perform_write, Request.effects, textEffects, within_bytes, bytesOf_append,
            bytesOf_map_byte, List.length_append]
          by_cases hfits : (Utf8.ofString piece).length ≤ sink.room
          · obtain ⟨sink', hrun, hbytes, hlog⟩ := ih { sink with
              room := sink.room - (Utf8.ofString piece).length
              bytes := sink.bytes ++ (Utf8.ofString piece).toByteArray }
            simp only [Nat.sub_lt_iff_lt_add' hfits] at hrun
            rw [write_of_le hfits, if_pos hfits]
            refine ⟨sink', hrun, ?_, ?_⟩
            · rw [hbytes, ByteArray.toList_data_append, List.data_toByteArray, bytesOf_append,
                bytesOf_map_byte, List.append_assoc]
            · rw [hlog, entriesOf_append, entriesOf_map_byte, List.nil_append]
              rfl
          · rw [write_of_lt (Nat.not_le.mp hfits), if_neg hfits, bytesOf_map_byte,
              entriesOf_map_byte, if_pos (by omega)]
            refine ⟨_, rfl, ?_, (List.append_nil _).symm⟩
            simp
      | log entry =>
          obtain ⟨sink', hrun, hbytes, hlog⟩ := ih { sink with entries := entry :: sink.entries }
          refine ⟨sink', hrun, hbytes, ?_⟩
          rw [hlog, Sink.log, List.reverse_cons, List.append_assoc]
          rfl

/-- What an artifact does against a sink: the effects of its script happen as far as
there is room. -/
theorem run_emitWithin (artifact : Artifact) (r : Registry) (room : Nat) :
    ∃ sink : Sink,
      artifact.emitWithin r room =
        (if room < (artifact.text r).utf8ByteSize then .error .full else .ok (), sink) ∧
      sink.bytes = (artifact.text r).toUTF8.extract 0 room ∧
      sink.log = entriesOf (within room (artifact.script r).effects) := by
  obtain ⟨requests, hemit, heffects⟩ := Artifact.follows_emit (m := StateM Sink) artifact r
  obtain ⟨sink, hrun, hbytes, hlog⟩ := run_perform_sink requests { room }
  rw [← hemit, heffects, Artifact.length_bytesOf_script] at hrun
  rw [heffects] at hbytes hlog
  refine ⟨sink, hrun, ?_, hlog⟩
  have hlist : sink.bytes.data.toList = (Utf8.ofString (artifact.text r)).take room := by
    rw [hbytes, bytesOf_within, Artifact.bytesOf_script]
    rfl
  rw [Utf8.extract_toUTF8, ← hlist]
  ext1
  simp

/-- An artifact fails against a sink if and only if it is longer than the room.
Then its front part has been written, with the log up to the first byte that has
no room; otherwise it is written and logged as a whole. -/
theorem artifact_emitWithin (artifact : Artifact) (r : Registry) (room : Nat) :
    let result := (artifact.emitWithin r room).1
    let sink := (artifact.emitWithin r room).2
    (result = .error .full ↔ room < (artifact.text r).utf8ByteSize) ∧
      (result = .error .full →
        sink.bytes = (artifact.text r).toUTF8.extract 0 room ∧ sink.log <+: artifact.log r ∧
        ∃ done b rest, (artifact.script r).effects = done ++ .byte b :: rest ∧
          bytesOf done = sink.bytes.data.toList ∧ entriesOf done = sink.log) ∧
      (result = .ok () →
        sink.bytes = (artifact.text r).toUTF8 ∧ sink.log = artifact.log r) := by
  intro result sink
  obtain ⟨sink', hrun, hbytes, hlog⟩ := run_emitWithin artifact r room
  have hresult : result = if room < (artifact.text r).utf8ByteSize then .error .full else .ok () :=
    congrArg Prod.fst hrun
  obtain rfl : sink = sink' := congrArg Prod.snd hrun
  have hsize := Artifact.length_bytesOf_script artifact r
  rcases Nat.lt_or_ge room (artifact.text r).utf8ByteSize with hcut | hwhole
  · rw [if_pos hcut] at hresult
    refine ⟨iff_of_true hresult hcut, fun _ => ⟨hbytes, ?_, ?_⟩, fun h => ?_⟩
    · rw [hlog, ← Artifact.entriesOf_script]
      exact (prefix_within room _).filterMap _
    · obtain ⟨b, rest, heffects⟩ := exists_of_room_lt (hsize.symm ▸ hcut)
      refine ⟨_, b, rest, heffects, ?_, hlog.symm⟩
      rw [bytesOf_within, Artifact.bytesOf_script, hbytes, Utf8.extract_toUTF8]
      simp
    · cases hresult.symm.trans h
  · rw [if_neg (Nat.not_lt.mpr hwhole)] at hresult
    have hall := within_of_le (hsize.symm ▸ hwhole)
    refine ⟨iff_of_false ?_ (Nat.not_lt.mpr hwhole), fun h => ?_, fun _ => ⟨?_, ?_⟩⟩
    · rw [hresult]
      exact nofun
    · cases hresult.symm.trans h
    · rw [hbytes, Utf8.extract_toUTF8, List.take_of_length_le, Utf8.toUTF8_eq]
      rwa [Utf8.length_ofString]
    · rw [hlog, hall, Artifact.entriesOf_script]

/-- A warning is logged once there is room for all that comes before its line. -/
theorem artifact_emitWithin_warning :
    let r : Registry := { bitfields := [⟨"M", "0x100000000", .bitmask⟩] }
    let warning : Log.Entry := ⟨.warn, "M = 0x100000000 does not fit in 32 bits, truncating"⟩
    let before := "// generated by gl-loader-generator from gl.xml, do not edit.\n" ++
      "\nuse super::types::*;\n\n\n"
    (Artifact.constants.emitWithin r 85).1 = .error .full ∧
      (Artifact.constants.emitWithin r 85).2.log = [] ∧
      (Artifact.constants.emitWithin r 86).1 = .error .full ∧
      (Artifact.constants.emitWithin r 86).2.bytes = before.toUTF8 ∧
      (Artifact.constants.emitWithin r 86).2.log = [warning] ∧
      (Artifact.constants.emitWithin r 188).1 = .ok () ∧
      (Artifact.constants.emitWithin r 188).2.log = [warning] := by
  intro r warning before
  have hsize : (Artifact.constants.text r).utf8ByteSize = 188 := by decide +kernel
  have hlog : Artifact.constants.log r = [warning] := by decide +kernel
  have hbefore : (Artifact.constants.text r).toUTF8.extract 0 86 = before.toUTF8 := by
    decide +kernel
  obtain ⟨hfull, -, -⟩ := artifact_emitWithin .constants r 85
  obtain ⟨hfull', hcut, -⟩ := artifact_emitWithin .constants r 86
  obtain ⟨hfull'', -, hwhole⟩ := artifact_emitWithin .constants r 188
  have hresult : (Artifact.constants.emitWithin r 86).1 = .error .full := by
    rw [hfull', hsize]
    decide
  have hresult' : (Artifact.constants.emitWithin r 188).1 = .ok () := by
    rw [hsize] at hfull''
    cases hend : (Artifact.constants.emitWithin r 188).1 with
    | ok _ => rfl
    | error fault => exact absurd (hfull''.mp hend) (Nat.lt_irrefl 188)
  refine ⟨?_, by decide +kernel, hresult, ?_, by decide +kernel, hresult', ?_⟩
  · rw [hfull, hsize]
    decide
  · rw [(hcut hresult).1, hbefore]
  · rw [(hwhole hresult').2, hlog]

end LazyGL.Binding
