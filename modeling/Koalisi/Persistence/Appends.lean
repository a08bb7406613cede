import Koalisi.Persistence.Layout

/-!
# What an append does to a stream

`Holds` is the invariant of one stream: its files and its index lie as `Laid`
says, its counters agree with the frames, and unless the stream is wedged there
is nothing behind the last frame and nothing left in the writer.  Every append
keeps it, whatever goes wrong on the way.  One that fails before the write phase
may leave a new empty segment behind, one that fails in the write phase a wedged
stream, and neither touches a frame.
-/

namespace Koalisi.Persistence

open Koalisi.Lib.Framing Koalisi.Lib.Fallible

variable {prims : Primitives}

/-- The hash the next frame has to carry. -/
def lastHash (prims : Primitives) (frames : List Bytes) : Option RecordHash :=
  frames.getLast?.map (hashFrame prims)

/-- The head of a stream of frames. -/
def headOf (prims : Primitives) (frames : List Bytes) : Option StreamHead :=
  frames.getLast?.map fun p ↦ ⟨frames.length - 1, hashFrame prims p⟩

/-- The frame of a record behind the given ones. -/
def nextFrame (prims : Primitives) (frames : List Bytes) (record : Record) :
    Except PersistenceError Bytes :=
  encodeSized prims record frames.length (lastHash prims frames)

theorem headOf_map_hash (frames : List Bytes) :
    (headOf prims frames).map StreamHead.hash = lastHash prims frames := by
  rw [headOf, Option.map_map]
  rfl

theorem headOf_concat (frames : List Bytes) (frame : Bytes) :
    headOf prims (frames ++ [frame]) = some ⟨frames.length, hashFrame prims frame⟩ := by
  rw [headOf, List.getLast?_concat, List.length_append, Option.map_some]
  rfl

theorem nextFrame_small {frames : List Bytes} {record : Record} {frame : Bytes}
    (h : nextFrame prims frames record = .ok frame) :
    encodeFrame prims record frames.length (lastHash prims frames) = .ok frame ∧ Small frame := by
  unfold nextFrame encodeSized at h
  cases he : encodeFrame prims record frames.length (lastHash prims frames) with
  | error e =>
      rw [he] at h
      cases h
  | ok f =>
      rw [he] at h
      change (if f.length < 2 ^ 32 then _ else _) = _ at h
      split at h
      · rename_i hs
        cases h
        exact ⟨rfl, hs⟩
      · cases h

/-! ## The invariant of a stream -/

/-- A stream with an active segment. -/
structure Active (prims : Primitives) (v : Volume) (closed : List (List Bytes))
    (last : List Bytes) (spill : Bytes) : Prop
    extends Laid v.files v.state.segments closed last spill where
  nextSeq_eq : v.state.nextSeq = (closed.flatten ++ last).length
  head_eq : v.state.head = headOf prims (closed.flatten ++ last)
  activeLen_eq : v.state.activeLen = (packed last).length
  writer_eq : ∃ buffer, v.state.writer = some ⟨closed.flatten.length, buffer⟩ ∧
    (v.state.wedged = false → spill = [] ∧ buffer = [])

/-- The stream holds these frames. -/
def Holds (prims : Primitives) (v : Volume) (frames : List Bytes) : Prop :=
  v = ⟨[], .blank⟩ ∧ frames = [] ∨
    ∃ closed last spill, Active prims v closed last spill ∧ closed.flatten ++ last = frames

variable {v v' : Volume} {frames : List Bytes}

theorem Holds.nextSeq_eq (h : Holds prims v frames) : v.state.nextSeq = frames.length := by
  rcases h with ⟨rfl, rfl⟩ | ⟨closed, last, spill, h, rfl⟩
  · rfl
  · exact h.nextSeq_eq

theorem Holds.head_eq (h : Holds prims v frames) : v.state.head = headOf prims frames := by
  rcases h with ⟨rfl, rfl⟩ | ⟨closed, last, spill, h, rfl⟩
  · rfl
  · exact h.head_eq

theorem Holds.fetch (h : Holds prims v frames) (stream : StreamId) {seq : Nat}
    (hseq : seq < frames.length) :
    readFrameBytesAt v.files v.state.segments stream seq = .ok frames[seq] := by
  rcases h with ⟨rfl, rfl⟩ | ⟨closed, last, spill, h, rfl⟩
  · cases hseq
  · exact h.toLaid.fetch stream hseq

theorem Holds.small (h : Holds prims v frames) : ∀ p ∈ frames, Small p := by
  rcases h with ⟨rfl, rfl⟩ | ⟨closed, last, spill, h, rfl⟩
  · intro p hp
    cases hp
  · exact h.small

/-! ## Rotation -/

@[simp] theorem Files.append_nil (files : Files) (firstSeq : Nat) :
    files.append firstSeq [] = files := by
  unfold Files.append Files.modify
  conv_rhs => rw [← List.map_id files]
  refine List.map_congr_left fun f _ ↦ ?_
  dsimp only
  rw [List.append_nil, ite_self]
  rfl

/-- The writer of a stream that is not wedged has nothing to write. -/
theorem Holds.drained (h : Holds prims v frames) (hw : v.state.wedged = false) {w : BufWriter}
    (hwr : v.state.writer = some w) : w.buffer = [] := by
  rcases h with ⟨rfl, rfl⟩ | ⟨closed, last, spill, h, rfl⟩
  · cases hwr
  · obtain ⟨buffer, hb, hclean⟩ := h.writer_eq
    rw [hwr, Option.some.injEq] at hb
    rw [hb]
    exact (hclean hw).2

theorem writeThrough_nil {w : BufWriter} (hwr : v.state.writer = some w) (hb : w.buffer = [])
    (fault : Option WriteFault) : writeThrough fault [] v = .ok () v := by
  obtain ⟨file, buffer⟩ := w
  cases hb
  unfold writeThrough
  rw [hwr]
  cases fault with
  | some f => rfl
  | none =>
      dsimp only
      rw [List.append_nil, Files.append_nil, ← hwr]

theorem failing_state (fault : Option IoError) (v : Volume) :
    finalState (failing fault v) = v := by
  cases fault <;> rfl

theorem closeSegment_none {faults : Faults} (h : v.state.writer = none) :
    closeSegment faults v = .ok () v := by
  obtain ⟨files, state⟩ := v
  cases state
  subst h
  rfl

theorem closeSegment_some {faults : Faults} {w : BufWriter} (h : v.state.writer = some w) :
    closeSegment faults v = (writeThrough faults.flush [] >>= fun _ ↦ failing faults.sync) v := by
  obtain ⟨files, state⟩ := v
  cases state
  subst h
  rfl

/-- Closing a segment whose writer has nothing to write changes nothing. -/
theorem closeSegment_state (h : ∀ w, v.state.writer = some w → w.buffer = [])
    (faults : Faults) : finalState (closeSegment faults v) = v := by
  cases hwr : v.state.writer with
  | none => rw [closeSegment_none hwr]; rfl
  | some w =>
      rw [closeSegment_some hwr, bind_def, writeThrough_nil hwr (h w hwr)]
      exact failing_state _ _

/-- A rotation that succeeds has started a new segment, or there was no need to. -/
theorem rotateIfNeeded_ok (h : Holds prims v frames) (hw : v.state.wedged = false)
    {config : FileStoreConfig} {faults : Faults}
    (hr : rotateIfNeeded config faults v = .ok () v') :
    needNew config v.state = false ∧ v' = v ∨ v' = startSegment v := by
  change (if needNew config v.state then _ else _ : EStateM PersistenceError Volume Unit) v =
    _ at hr
  split at hr
  · right
    obtain ⟨_, t, hclose, hr⟩ := bind_eq_ok.mp hr
    obtain ⟨_, u, hopen, hr⟩ := bind_eq_ok.mp hr
    have ht : t = v := by
      have := closeSegment_state (fun w ↦ h.drained hw) faults
      rw [hclose] at this
      exact this
    have hu : u = t := (look_eq_ok.mp hopen).2.symm
    cases hr
    rw [hu, ht]
  · rename_i hn
    cases hr
    exact Or.inl ⟨by simpa using hn, rfl⟩

/-- A rotation that fails changes nothing. -/
theorem rotateIfNeeded_error (h : Holds prims v frames) (hw : v.state.wedged = false)
    {config : FileStoreConfig} {faults : Faults} {e : PersistenceError}
    (hr : rotateIfNeeded config faults v = .error e v') : v' = v := by
  change (if needNew config v.state then _ else _ : EStateM PersistenceError Volume Unit) v =
    _ at hr
  have hclosed := closeSegment_state (fun w ↦ h.drained hw) faults
  split at hr
  · rcases bind_eq_error.mp hr with hclose | ⟨_, t, hclose, hr⟩
    · rw [hclose] at hclosed
      exact hclosed
    rw [hclose] at hclosed
    rcases bind_eq_error.mp hr with hopen | ⟨_, u, _, hr⟩
    · rw [← (look_eq_error.mp hopen).2]
      exact hclosed
    · cases hr
  · cases hr

/-- Without faults a rotation succeeds. -/
theorem rotateIfNeeded_clean (h : Holds prims v frames) (hw : v.state.wedged = false)
    (config : FileStoreConfig) : ∃ v', rotateIfNeeded config {} v = .ok () v' := by
  have hclose : closeSegment {} v = .ok () v := by
    cases hwr : v.state.writer with
    | none => exact closeSegment_none hwr
    | some w =>
        rw [closeSegment_some hwr, bind_def, writeThrough_nil hwr (h.drained hw hwr)]
        rfl
  change ∃ v', (if needNew config v.state then _ else _ :
    EStateM PersistenceError Volume Unit) v = _
  split
  · refine ⟨startSegment v, ?_⟩
    rw [bind_def, hclose]
    rfl
  · exact ⟨v, rfl⟩

/-- A file that is there is opened as it is. -/
theorem openAppend_of_mem {files : Files} {f : Nat × Bytes} (h : f ∈ files) :
    files.openAppend f.1 = files := by
  rw [Files.openAppend, if_pos]
  exact List.any_eq_true.mpr ⟨f, h, decide_eq_true rfl⟩

/-- A file that is not there is created empty. -/
theorem openAppend_of_fresh {files : Files} {pos : Nat} (h : ∀ f ∈ files, f.1 ≠ pos) :
    files.openAppend pos = files ++ [(pos, [])] := by
  rw [Files.openAppend, if_neg]
  rw [List.any_eq_true]
  rintro ⟨f, hf, hpos⟩
  exact h f hf (of_decide_eq_true hpos)

/-- The file of a segment that is started behind the active one. -/
theorem Laid.openAppend {files : Files} {segments : List SegmentIndex}
    {closed : List (List Bytes)} {last : List Bytes} (h : Laid files segments closed last [])
    (hne : last ≠ []) :
    files.openAppend (closed.flatten ++ last).length =
      layout 0 (closed ++ [last]) ++ [((closed.flatten ++ last).length, [])] := by
  have hlayout : files = layout 0 (closed ++ [last]) := by
    rw [h.files_eq, layout_append, List.append_nil, Nat.zero_add]
    rfl
  have hkeys : ∀ f ∈ files, f.1 ≠ (closed.flatten ++ last).length := by
    intro f hf
    rw [hlayout] at hf
    have hlt := layout_key_lt (fun seg hseg ↦ ?_) hf
    · rw [List.flatten_append, List.flatten_singleton] at hlt
      omega
    · rcases List.mem_append.mp hseg with hseg | hseg
      · exact h.nonempty seg hseg
      · rw [List.mem_singleton.mp hseg]
        exact hne
  rw [openAppend_of_fresh hkeys, hlayout]

/-- A new segment behind an occupied one. -/
theorem Active.started {closed : List (List Bytes)} {last : List Bytes}
    (h : Active prims v closed last []) (hne : last ≠ []) :
    Active prims (startSegment v) (closed ++ [last]) [] [] := by
  obtain ⟨older, hidx, holder⟩ := h.index_eq
  have hflat : (closed ++ [last]).flatten = closed.flatten ++ last := by
    rw [List.flatten_append, List.flatten_singleton]
  refine { files_eq := ?_, nonempty := ?_, small := ?_, index_eq := ?_, nextSeq_eq := ?_,
           head_eq := ?_, activeLen_eq := rfl, writer_eq := ⟨[], ?_, fun _ ↦ ⟨rfl, rfl⟩⟩ }
  · change v.files.openAppend v.state.nextSeq = _
    rw [h.nextSeq_eq, h.toLaid.openAppend hne, hflat]
    rfl
  · intro seg hseg
    rcases List.mem_append.mp hseg with hseg | hseg
    · exact h.nonempty seg hseg
    · rw [List.mem_singleton.mp hseg]
      exact hne
  · rw [hflat, List.append_nil]
    exact h.small
  · refine ⟨v.state.segments, ?_, ?_⟩
    · change v.state.segments ++ [⟨v.state.nextSeq, []⟩] = _
      rw [h.nextSeq_eq, hflat]
      rfl
    · have hoccupied : SegmentIndex.occupied ⟨closed.flatten.length, starts 0 last⟩ = true := by
        obtain ⟨p, ps, rfl⟩ := List.exists_cons_of_ne_nil hne
        rfl
      rw [hidx, List.filter_append, holder, List.filter_singleton, hoccupied, cond_true,
        index_append, Nat.zero_add]
      rfl
  · rw [hflat, List.append_nil]
    exact h.nextSeq_eq
  · rw [hflat, List.append_nil]
    exact h.head_eq
  · change some (BufWriter.mk v.state.nextSeq []) = _
    rw [h.nextSeq_eq, hflat]

/-- A new segment where the active one is still empty: the same file, opened again. -/
theorem Active.restarted {closed : List (List Bytes)}
    (h : Active prims v closed [] []) : Active prims (startSegment v) closed [] [] := by
  obtain ⟨older, hidx, holder⟩ := h.index_eq
  have hnext : v.state.nextSeq = closed.flatten.length := by
    rw [h.nextSeq_eq, List.append_nil]
  refine { files_eq := ?_, nonempty := h.nonempty, small := h.small, index_eq := ?_,
           nextSeq_eq := h.nextSeq_eq, head_eq := h.head_eq, activeLen_eq := rfl,
           writer_eq := ⟨[], ?_, fun _ ↦ ⟨rfl, rfl⟩⟩ }
  · change v.files.openAppend v.state.nextSeq = _
    have hmem : (closed.flatten.length, []) ∈ v.files := by
      rw [h.files_eq]
      exact List.mem_append_right _ List.mem_cons_self
    rw [hnext, openAppend_of_mem hmem]
    exact h.files_eq
  · refine ⟨v.state.segments, ?_, ?_⟩
    · change v.state.segments ++ [⟨v.state.nextSeq, []⟩] = _
      rw [hnext]
      rfl
    · rw [hidx, List.filter_append, holder]
      exact List.append_nil _
  · change some (BufWriter.mk v.state.nextSeq []) = _
    rw [hnext]

/-- The first segment of a stream. -/
theorem active_startSegment_blank : Active prims (startSegment ⟨[], .blank⟩) [] [] [] where
  files_eq := rfl
  nonempty _ h := nomatch h
  small _ h := nomatch h
  index_eq := ⟨[], rfl, rfl⟩
  nextSeq_eq := rfl
  head_eq := rfl
  activeLen_eq := rfl
  writer_eq := ⟨[], rfl, fun _ ↦ ⟨rfl, rfl⟩⟩

/-- A stream that is not wedged has nothing behind its last frame. -/
theorem Active.spill_eq {closed : List (List Bytes)} {last : List Bytes} {spill : Bytes}
    (h : Active prims v closed last spill) (hw : v.state.wedged = false) : spill = [] := by
  obtain ⟨buffer, -, hclean⟩ := h.writer_eq
  exact (hclean hw).1

/-- After a rotation the stream has an active segment and the frames it had. -/
theorem Holds.rotated (h : Holds prims v frames) (hw : v.state.wedged = false)
    {config : FileStoreConfig} {faults : Faults}
    (hr : rotateIfNeeded config faults v = .ok () v') :
    v'.state.wedged = false ∧
      ∃ closed last, Active prims v' closed last [] ∧ closed.flatten ++ last = frames := by
  rcases rotateIfNeeded_ok h hw hr with ⟨hn, rfl⟩ | rfl
  · refine ⟨hw, ?_⟩
    rcases h with ⟨rfl, rfl⟩ | ⟨closed, last, spill, h, rfl⟩
    · cases hn
    · cases h.spill_eq hw
      exact ⟨closed, last, h, rfl⟩
  · refine ⟨hw, ?_⟩
    rcases h with ⟨rfl, rfl⟩ | ⟨closed, last, spill, h, rfl⟩
    · exact ⟨[], [], active_startSegment_blank, rfl⟩
    · cases h.spill_eq hw
      rcases List.eq_nil_or_concat last with rfl | ⟨ps, p, hlast⟩
      · exact ⟨closed, [], h.restarted, rfl⟩
      · have hne : last ≠ [] := by
          rw [hlast, List.concat_eq_append]
          exact List.append_ne_nil_of_right_ne_nil _ (List.cons_ne_nil _ _)
        refine ⟨closed ++ [last], [], h.started hne, ?_⟩
        rw [List.flatten_append, List.flatten_singleton, List.append_nil]

/-! ## Encoding -/

/-- What the work before the write returns. -/
theorem prepare_ok (h : Holds prims v frames) (hw : v.state.wedged = false)
    {config : FileStoreConfig} {faults : Faults} {record : Record} {frame : Bytes}
    (hp : prepare prims config faults record v = .ok frame v') :
    nextFrame prims frames record = .ok frame ∧ v'.state.wedged = false ∧
      ∃ closed last, Active prims v' closed last [] ∧ closed.flatten ++ last = frames := by
  obtain ⟨_, t, hrot, hlook⟩ := bind_eq_ok.mp hp
  obtain ⟨hframe, rfl⟩ := look_eq_ok.mp hlook
  obtain ⟨hw', closed, last, hact, rfl⟩ := h.rotated hw hrot
  refine ⟨?_, hw', closed, last, hact, rfl⟩
  rw [hact.nextSeq_eq, hact.head_eq, headOf_map_hash] at hframe
  exact hframe

/-- Failing before the write leaves the stream as it was, up to a new empty segment. -/
theorem prepare_error (h : Holds prims v frames) (hw : v.state.wedged = false)
    {config : FileStoreConfig} {faults : Faults} {record : Record} {e : PersistenceError}
    (hp : prepare prims config faults record v = .error e v') :
    v'.state.wedged = false ∧ Holds prims v' frames := by
  rcases bind_eq_error.mp hp with hrot | ⟨_, t, hrot, hlook⟩
  · rw [rotateIfNeeded_error h hw hrot]
    exact ⟨hw, h⟩
  · obtain ⟨-, rfl⟩ := look_eq_error.mp hlook
    obtain ⟨hw', closed, last, hact, hfr⟩ := h.rotated hw hrot
    exact ⟨hw', Or.inr ⟨closed, last, [], hact, hfr⟩⟩

/-- Without faults only the encoding can fail before the write. -/
theorem prepare_clean (h : Holds prims v frames) (hw : v.state.wedged = false)
    (config : FileStoreConfig) (record : Record) :
    ∃ v', prepare prims config {} record v = match nextFrame prims frames record with
      | .ok frame => .ok frame v'
      | .error e => .error e v' := by
  obtain ⟨t, hrot⟩ := rotateIfNeeded_clean h hw config
  obtain ⟨-, closed, last, hact, rfl⟩ := h.rotated hw hrot
  refine ⟨t, ?_⟩
  rw [prepare, bind_def, hrot, nextFrame]
  simp only [look, hact.nextSeq_eq, hact.head_eq, headOf_map_hash]
  cases encodeSized prims record _ _ <;> rfl

/-! ## The write phase -/

/-- Changing the last file of a layout. -/
theorem modify_last {segs : List (List Bytes)} (h : ∀ seg ∈ segs, seg ≠ []) (data : Bytes)
    (change : Bytes → Bytes) :
    Files.modify (layout 0 segs ++ [(segs.flatten.length, data)]) segs.flatten.length change =
      layout 0 segs ++ [(segs.flatten.length, change data)] := by
  have hold : (layout 0 segs).map (fun f ↦
      if f.1 = segs.flatten.length then (f.1, change f.2) else f) = layout 0 segs := by
    conv_rhs => rw [← List.map_id (layout 0 segs)]
    refine List.map_congr_left fun f hf ↦ ?_
    have := layout_key_lt h hf
    rw [if_neg (by omega)]
    rfl
  rw [Files.modify, List.map_append, hold, List.map_singleton, if_pos rfl]

/-- A frame that is written is behind the others, and the writer is drained. -/
theorem writeFrame_ok {pos : Nat} (hwr : v.state.writer = some ⟨pos, []⟩) {faults : Faults}
    {frame : Bytes} (h : writeFrame faults frame v = .ok () v') :
    v' = ⟨v.files.append pos (framed frame), { v.state with writer := some ⟨pos, []⟩ }⟩ := by
  unfold writeFrame writeThrough at h
  rw [hwr] at h
  cases hf : faults.write with
  | none =>
      rw [hf] at h
      cases h
      rfl
  | some f =>
      rw [hf] at h
      change (if toLeBytes frame.length ++ frame = [] then _ else _) = _ at h
      split at h
      · rename_i hnil
        cases hnil
      · cases h

/-- A frame that is not written leaves some bytes behind. -/
theorem writeFrame_error {pos : Nat} {buffer : Bytes} (hwr : v.state.writer = some ⟨pos, buffer⟩)
    {faults : Faults} {frame : Bytes} {e : PersistenceError}
    (h : writeFrame faults frame v = .error e v') :
    ∃ bytes kept, v' = ⟨v.files.append pos bytes,
      { v.state with writer := some ⟨pos, kept⟩ }⟩ := by
  unfold writeFrame writeThrough at h
  rw [hwr] at h
  cases hf : faults.write with
  | none =>
      rw [hf] at h
      cases h
  | some f =>
      rw [hf] at h
      change (if buffer ++ (toLeBytes frame.length ++ frame) = [] then _ else _) = _ at h
      split at h
      · cases h
      · cases h
        exact ⟨_, _, rfl⟩

/-- The index after a frame was written. -/
theorem pushOffset_starts (older : List SegmentIndex) (pos : Nat) (last : List Bytes)
    (frame : Bytes) :
    pushOffset (older ++ [⟨pos, starts 0 last⟩]) (packed last).length =
      older ++ [⟨pos, starts 0 (last ++ [frame])⟩] := by
  unfold pushOffset
  rw [List.getLast?_concat, List.dropLast_concat, starts_append, Nat.zero_add]
  rfl

/-- The stream after a frame was written. -/
theorem Active.written {closed : List (List Bytes)} {last : List Bytes} {frame : Bytes}
    (h : Active prims v closed last []) (hs : Small frame) :
    Active prims ⟨v.files.append closed.flatten.length (framed frame),
        advance prims { v.state with writer := some ⟨closed.flatten.length, []⟩ } frame⟩
      closed (last ++ [frame]) [] := by
  obtain ⟨older, hidx, holder⟩ := h.index_eq
  refine { files_eq := ?_, nonempty := h.nonempty, small := ?_, index_eq := ⟨older, ?_, holder⟩,
           nextSeq_eq := ?_, head_eq := ?_, activeLen_eq := ?_,
           writer_eq := ⟨[], rfl, fun _ ↦ ⟨rfl, rfl⟩⟩ }
  · change v.files.append _ _ = _
    rw [h.files_eq, Files.append, modify_last h.nonempty, packed_append, List.append_nil,
      List.append_nil, packed_cons, packed_nil, List.append_nil]
  · intro p hp
    rw [← List.append_assoc] at hp
    rcases List.mem_append.mp hp with hp | hp
    · exact h.small p hp
    · rw [List.mem_singleton.mp hp]
      exact hs
  · change pushOffset v.state.segments v.state.activeLen = _
    rw [hidx, h.activeLen_eq, pushOffset_starts]
  · change v.state.nextSeq + 1 = _
    rw [h.nextSeq_eq, ← List.append_assoc, @List.length_append _ _ [frame]]
    rfl
  · change some (StreamHead.mk v.state.nextSeq _) = _
    rw [← List.append_assoc, headOf_concat, h.nextSeq_eq]
  · change v.state.activeLen + (4 + frame.length) = _
    rw [h.activeLen_eq, packed_append, List.length_append, packed_cons, packed_nil,
      List.append_nil, length_framed]

/-- What a write phase that succeeds does. -/
theorem writePhase_ok {closed : List (List Bytes)} {last : List Bytes} {frame : Bytes}
    (h : Active prims v closed last []) (hw : v.state.wedged = false) (hs : Small frame)
    {faults : Faults} {head : StreamHead} (hp : writePhase prims faults frame v = .ok head v') :
    head = ⟨(closed.flatten ++ last).length, hashFrame prims frame⟩ ∧ v'.state.wedged = false ∧
      Active prims v' closed (last ++ [frame]) [] := by
  obtain ⟨buffer, hwr, hclean⟩ := h.writer_eq
  cases (hclean hw).2
  unfold writePhase at hp
  cases hf : writeFrame faults frame v with
  | error e t =>
      rw [hf] at hp
      cases hp
  | ok a t =>
      rw [hf] at hp
      cases writeFrame_ok hwr hf
      cases hp
      refine ⟨?_, hw, h.written hs⟩
      rw [headAfter, ← h.nextSeq_eq]

/-- A write phase that fails wedges the stream, and leaves its frames alone. -/
theorem writePhase_error {closed : List (List Bytes)} {last : List Bytes} {frame : Bytes}
    {spill : Bytes} (h : Active prims v closed last spill)
    {faults : Faults} {e : PersistenceError}
    (hp : writePhase prims faults frame v = .error e v') :
    v'.state.wedged = true ∧ ∃ spill', Active prims v' closed last spill' := by
  obtain ⟨buffer, hwr, -⟩ := h.writer_eq
  unfold writePhase at hp
  cases hf : writeFrame faults frame v with
  | ok a t =>
      rw [hf] at hp
      cases hp
  | error e' t =>
      rw [hf] at hp
      obtain ⟨bytes, kept, rfl⟩ := writeFrame_error hwr hf
      cases hp
      refine ⟨rfl, spill ++ bytes, ?_⟩
      exact { h with
        files_eq := by
          change v.files.append _ _ = _
          rw [h.files_eq, Files.append, modify_last h.nonempty, List.append_assoc]
        writer_eq := ⟨kept, rfl, fun hw ↦ nomatch hw⟩ }

/-- Without faults the write phase succeeds. -/
theorem writePhase_clean {closed : List (List Bytes)} {last : List Bytes}
    (h : Active prims v closed last []) (frame : Bytes) :
    ∃ head v', writePhase prims {} frame v = .ok head v' := by
  obtain ⟨buffer, hwr, -⟩ := h.writer_eq
  unfold writePhase writeFrame writeThrough
  rw [hwr]
  exact ⟨_, _, rfl⟩

/-! ## A whole append -/

variable {config : FileStoreConfig} {faults : Faults} {stream : StreamId} {record : Record}

theorem append_of_wedged (hw : v.state.wedged = true) :
    Volume.append prims config faults stream record v = .error (.streamWedged stream) v := by
  change (if v.state.wedged then _ else _ : EStateM PersistenceError Volume StreamHead) v = _
  rw [if_pos hw]
  rfl

theorem append_of_not_wedged (hw : v.state.wedged = false) :
    Volume.append prims config faults stream record v =
      (prepare prims config faults record >>= writePhase prims faults) v := by
  change (if v.state.wedged then _ else _ : EStateM PersistenceError Volume StreamHead) v = _
  rw [if_neg (by rw [hw]; exact Bool.false_ne_true)]

/-- An append that succeeds adds the frame of its record. -/
theorem append_ok (h : Holds prims v frames) {head : StreamHead}
    (ha : Volume.append prims config faults stream record v = .ok head v') :
    ∃ frame, nextFrame prims frames record = .ok frame ∧
      head = ⟨frames.length, hashFrame prims frame⟩ ∧ v'.state.wedged = false ∧
      Holds prims v' (frames ++ [frame]) := by
  cases hw : v.state.wedged with
  | true =>
      rw [append_of_wedged hw] at ha
      cases ha
  | false =>
      rw [append_of_not_wedged hw] at ha
      obtain ⟨frame, t, hprep, hwrite⟩ := bind_eq_ok.mp ha
      obtain ⟨hnext, hw', closed, last, hact, rfl⟩ := prepare_ok h hw hprep
      obtain ⟨hhead, hw'', hact'⟩ := writePhase_ok hact hw' (nextFrame_small hnext).2 hwrite
      refine ⟨frame, hnext, hhead, hw'', Or.inr ⟨closed, _, [], hact', ?_⟩⟩
      rw [List.append_assoc]

/-- Where an append failed. -/
inductive FailedAt (prims : Primitives) (config : FileStoreConfig) (faults : Faults)
    (stream : StreamId) (record : Record) (v : Volume) (e : PersistenceError) (v' : Volume) :
    Prop where
  /-- At once: the stream was wedged, and nothing happened. -/
  | wedged (hw : v.state.wedged = true) (he : e = .streamWedged stream) (hv : v' = v)
  /-- Before the write phase: in the rotation or the encoding. -/
  | prepare (hw : v.state.wedged = false) (hp : prepare prims config faults record v = .error e v')
      (hw' : v'.state.wedged = false)
  /-- In the write phase. -/
  | write {frame : Bytes} {t : Volume} (hw : v.state.wedged = false)
      (hp : Persistence.prepare prims config faults record v = .ok frame t)
      (hf : writePhase prims faults frame t = .error e v') (hw' : v'.state.wedged = true)

/-- An append that fails keeps the frames. -/
theorem append_error (h : Holds prims v frames) {e : PersistenceError}
    (ha : Volume.append prims config faults stream record v = .error e v') :
    FailedAt prims config faults stream record v e v' ∧ Holds prims v' frames := by
  cases hw : v.state.wedged with
  | true =>
      rw [append_of_wedged hw] at ha
      cases ha
      exact ⟨.wedged hw rfl rfl, h⟩
  | false =>
      rw [append_of_not_wedged hw] at ha
      rcases bind_eq_error.mp ha with hprep | ⟨frame, t, hprep, hwrite⟩
      · obtain ⟨hw', hholds⟩ := prepare_error h hw hprep
        exact ⟨.prepare hw hprep hw', hholds⟩
      · obtain ⟨-, hw', closed, last, hact, rfl⟩ := prepare_ok h hw hprep
        obtain ⟨hw'', spill, hact'⟩ := writePhase_error hact hwrite
        exact ⟨.write hw hprep hwrite hw'', Or.inr ⟨closed, last, spill, hact', rfl⟩⟩

/-- Without faults an append to a stream that is not wedged succeeds, unless the record
cannot be encoded. -/
theorem append_clean (h : Holds prims v frames) (hw : v.state.wedged = false)
    (config : FileStoreConfig) (stream : StreamId) (record : Record) :
    ∃ v', v'.state.wedged = false ∧ match nextFrame prims frames record with
      | .ok frame => Volume.append prims config {} stream record v =
          .ok ⟨frames.length, hashFrame prims frame⟩ v' ∧ Holds prims v' (frames ++ [frame])
      | .error e => Volume.append prims config {} stream record v = .error e v' ∧
          Holds prims v' frames := by
  obtain ⟨t, hprep⟩ := prepare_clean h hw config record
  rw [append_of_not_wedged hw]
  cases hn : nextFrame prims frames record with
  | error e =>
      rw [hn] at hprep
      obtain ⟨hw', hholds⟩ := prepare_error h hw hprep
      exact ⟨t, hw', bind_eq_error.mpr (Or.inl hprep), hholds⟩
  | ok frame =>
      rw [hn] at hprep
      obtain ⟨-, hw', closed, last, hact, rfl⟩ := prepare_ok h hw hprep
      obtain ⟨head, v', hwrite⟩ := writePhase_clean hact frame
      obtain ⟨rfl, hw'', hact'⟩ := writePhase_ok hact hw' (nextFrame_small hn).2 hwrite
      refine ⟨v', hw'', bind_eq_ok.mpr ⟨frame, t, hprep, hwrite⟩, Or.inr ⟨closed, _, [], hact', ?_⟩⟩
      rw [List.append_assoc]

end Koalisi.Persistence
