import Koalisi.Persistence.Refinement

/-!
# Recovery from a torn tail

A crash may leave a stream's last segment file shorter than it was.  Wherever the
file is cut, in a length prefix, in a frame, between two frames or before the
first, the store opens on what is left, and holds the records of the earlier
segments and those of the last segment whose frames lie wholly before the cut.
From there it goes on as if no other record had ever been appended:
`recovers_torn_tail`.
-/

namespace Koalisi.Persistence

open Koalisi.Lib.Framing Koalisi.Lib.Fallible

variable {prims : Primitives}

namespace FileEventStore

/-- The last segment file of a stream: its name, and its content. -/
def lastSegment (store : FileEventStore) (stream : StreamId) : Option (Nat × Bytes) :=
  (store.streams stream).segments.getLast?.bind fun seg ↦
    ((store.disk stream.asDirName).lookup seg.firstSeq).map fun data ↦ (seg.firstSeq, data)

/-- The disk that a dropped store leaves, the last segment file of one stream cut to its
first `n` bytes. -/
def cutLast (store : FileEventStore) (stream : StreamId) (n : Nat) : Disk :=
  match store.lastSegment stream with
  | none => store.close
  | some (firstSeq, _) => Function.update store.close stream.asDirName
      ((store.close stream.asDirName).modify firstSeq (List.take n))

end FileEventStore

/-- How the ledger of a stream is split over its segment files: the frames of the earlier
ones, and those of the last, which is missing when the stream never had a segment. -/
def LastSegment (store : FileEventStore) (stream : StreamId) (ledger : Ledger prims)
    (earlier last : List Bytes) : Prop :=
  ledger.frames = earlier ++ last ∧
    (store.lastSegment stream = some (earlier.length, packed last) ∨
      store.lastSegment stream = none ∧ ledger.frames = [])

variable {store : FileEventStore} {ledgers : Ledgers prims}

/-- The file of the active segment. -/
theorem Active.lastSegment {stream : StreamId} {closed : List (List Bytes)} {last : List Bytes}
    (h : Active prims (store.volume stream) closed last []) :
    store.lastSegment stream = some (closed.flatten.length, packed last) := by
  obtain ⟨older, hidx, -⟩ := h.index_eq
  have hfile := h.files_eq ▸ lookup_last h.nonempty (packed last ++ [])
  change (store.volume stream).state.segments.getLast?.bind _ = _
  rw [hidx, List.getLast?_concat]
  change ((store.volume stream).files.lookup closed.flatten.length).map _ = _
  rw [hfile, List.append_nil]
  rfl

/-- A directory whose last segment file was cut is scanned with success, and is found to
hold the frames that lie before the cut. -/
theorem Keeps.scan_cut (hp : prims.RoundTrips) (h : Keeps store ledgers) (stream : StreamId)
    (n : Nat) : ∃ earlier last, LastSegment store stream (ledgers stream) earlier last ∧
      ∃ state files', scanStream prims stream (store.cutLast stream n stream.asDirName) =
          .ok state files' ∧ state.wedged = false ∧
        Holds prims ⟨files', state⟩
          ((ledgers stream).take (earlier.length + fitting last n)).frames := by
  obtain ⟨hholds, hw⟩ := h stream
  have hclose := hholds.close_eq hw
  rcases hholds with ⟨hv, hnil⟩ | ⟨closed, last, spill, hact, hframes⟩
  · -- there is no segment to cut
    have hlast : store.lastSegment stream = none := by
      change (store.volume stream).state.segments.getLast?.bind _ = none
      rw [hv]
      rfl
    refine ⟨[], [], ⟨hnil, Or.inr ⟨hlast, hnil⟩⟩, _, _, ?_, rfl, Or.inl ⟨rfl, ?_⟩⟩
    · unfold FileEventStore.cutLast
      rw [hlast]
      change scanStream prims stream (store.close stream.asDirName) = _
      rw [store.close_asDirName, hclose, hv]
      exact scanStream_nil
    · rw [Ledger.frames_take, hnil, List.take_nil]
  · cases hact.spill_eq hw
    have hlast := hact.lastSegment
    refine ⟨closed.flatten, last, ⟨hframes.symm, Or.inl hlast⟩, ?_⟩
    obtain ⟨tail, htail, hrest⟩ :=
      take_packed (fun p hp ↦ hact.small p (List.mem_append_right _ hp)) n
    have hcut : store.cutLast stream n stream.asDirName = layout 0 closed ++
        [(closed.flatten.length, packed (last.take (fitting last n)) ++ tail)] := by
      unfold FileEventStore.cutLast
      rw [hlast]
      change Function.update store.close stream.asDirName _ stream.asDirName = _
      rw [Function.update_self, store.close_asDirName, hclose, hact.files_eq,
        modify_last hact.nonempty, List.append_nil, htail]
    have hkept : closed.flatten ++ last.take (fitting last n) =
        ((ledgers stream).take (closed.flatten.length + fitting last n)).frames := by
      rw [Ledger.frames_take, ← hframes, List.take_length_add_append]
    obtain ⟨state, files', hscan, hholds', hw'⟩ :=
      Ledger.scan hp _ stream hcut hact.nonempty hkept hrest
    exact ⟨state, files', hscan, hw', hholds'⟩

/-- Cutting a file of one stream leaves the directories of the others alone. -/
theorem FileEventStore.cutLast_of_ne (store : FileEventStore) {stream t : StreamId} (n : Nat)
    (ht : t ≠ stream) :
    store.cutLast stream n t.asDirName = (store.volume t).close := by
  unfold cutLast
  cases store.lastSegment stream with
  | none => exact store.close_asDirName t
  | some f =>
      change Function.update store.close stream.asDirName _ t.asDirName = _
      rw [Function.update_of_ne fun hdir ↦ ht (StreamId.asDirName_injective hdir)]
      exact store.close_asDirName t

/-- Recovery from a torn tail.  After any run of a client, cut the last segment file of a
stream to any length: the store opens, and shows the records of the earlier segments and
of those frames of the last segment that lie wholly within the bytes kept.  Any client
then gets the answers of ledgers that hold just these, and the store shows the kept
records followed by the new ones. -/
theorem recovers_torn_tail (hp : prims.RoundTrips) (config config' : FileStoreConfig)
    (ops : List Op) (stream : StreamId) (n : Nat) :
    ∃ store, FileEventStore.session prims config ops =
        some ((Ledgers.run ops (Ledgers.empty prims)).1, store) ∧
      ∃ earlier last, LastSegment store stream
          ((Ledgers.run ops (Ledgers.empty prims)).2 stream) earlier last ∧
        let ledgers := (Ledgers.run ops (Ledgers.empty prims)).2
        let kept := Function.update ledgers stream
          ((ledgers stream).take (earlier.length + fitting last n))
        ∃ store', FileEventStore.openOn prims config' (store.cutLast stream n) =
            .ok store' store'.disk ∧
          Shows prims store' (fun s ↦ (kept s).stored) ∧
          ∀ ops', ∃ store'', store'.run prims ops' = some ((Ledgers.run ops' kept).1, store'') ∧
            Shows prims store'' (fun s ↦ ((Ledgers.run ops' kept).2 s).stored) ∧
            ∀ s, ((Ledgers.run ops' kept).2 s).records =
              (kept s).records ++ appendedTo s ops' (Ledgers.run ops' kept).1 := by
  obtain ⟨store, hrun, hkeeps⟩ := exists_session hp config ops
  obtain ⟨earlier, last, hlast, state, files, hscan, hw, hholds⟩ := hkeeps.scan_cut hp stream n
  refine ⟨store, hrun, earlier, last, hlast, ?_⟩
  intro ledgers kept
  have hscans : ∀ s : StreamId, ∃ state files', scanStream prims s
      (store.cutLast stream n s.asDirName) = .ok state files' ∧
        Holds prims ⟨files', state⟩ (kept s).frames ∧ state.wedged = false := by
    intro s
    by_cases hs : s = stream
    · subst hs
      refine ⟨state, files, hscan, ?_, hw⟩
      change Holds prims _ (Function.update ledgers s _ s).frames
      rw [Function.update_self]
      exact hholds
    · rw [store.cutLast_of_ne n hs]
      change ∃ state files', _ ∧ Holds prims _ (Function.update ledgers stream _ s).frames ∧ _
      rw [Function.update_of_ne hs]
      exact Ledger.rescan hp (hkeeps s).1 (hkeeps s).2 s
  obtain ⟨store', hopen', hkept⟩ := exists_openOn_keeps config' hscans
  refine ⟨store', hopen', hkept.shows hp, fun ops' ↦ ?_⟩
  obtain ⟨store'', hrun', hkept'⟩ := hkept.run hp ops'
  exact ⟨store'', hrun', hkept'.shows hp, fun s ↦ Ledgers.records_run ops' kept s⟩

/-- Two records in one segment file, cut within the second. -/
theorem recovers_torn_tail_sample :
    ∃ store store', FileEventStore.session Sample.codec ⟨5⟩
        [.append .topology Sample.firstRecord, .append .topology Sample.secondRecord] =
      some ([.appended (.ok ⟨0, ⟨.sha256, Sample.firstDigest⟩⟩),
        .appended (.ok ⟨1, ⟨.sha256, Sample.secondDigest⟩⟩)], store) ∧
      FileEventStore.openOn Sample.codec ⟨5⟩ (store.cutLast .topology 200) =
        .ok store' store'.disk := by
  obtain ⟨store, hrun, _, _, _, store', hopen, _⟩ := recovers_torn_tail Sample.roundTrips ⟨5⟩ ⟨5⟩
    [.append .topology Sample.firstRecord, .append .topology Sample.secondRecord] .topology 200
  have hresponses : (Ledgers.run [.append .topology Sample.firstRecord,
      .append .topology Sample.secondRecord] (Ledgers.empty Sample.codec)).1 =
      [.appended (.ok ⟨0, ⟨.sha256, Sample.firstDigest⟩⟩),
        .appended (.ok ⟨1, ⟨.sha256, Sample.secondDigest⟩⟩)] := by decide +kernel
  rw [hresponses] at hrun
  exact ⟨store, store', hrun, hopen⟩

end Koalisi.Persistence
