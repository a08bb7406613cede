import Koalisi.Persistence.Refinement

/-!
# A failed append never corrupts a stream

Any step of an append can fail: closing the full segment, opening a new one,
encoding the record, writing its frame.  `failed_append` says what is left behind,
for every store that can come about on any disk.  Readers see no difference, in
any stream.  A failure before the write phase leaves the stream ready for the next
append, which gets the position and the predecessor that the failed one would have
had.  A failure in the write phase wedges this stream and no other, and it stays
wedged until the store is opened again.
-/

namespace Koalisi.Persistence

open Koalisi.Lib.Framing Koalisi.Lib.Fallible

variable {prims : Primitives}

/-- One attempt to append a record, and what goes wrong in it. -/
structure Attempt where
  faults : Faults
  stream : StreamId
  record : Record
deriving DecidableEq, Repr

namespace FileEventStore

/-- Attempt to append. -/
def attempt (prims : Primitives) (store : FileEventStore) (a : Attempt) :
    EStateM.Result PersistenceError FileEventStore StreamHead :=
  store.append prims a.faults a.stream a.record

/-- The store after a series of attempts, whether they succeeded or not. -/
def after (prims : Primitives) (store : FileEventStore) (attempts : List Attempt) :
    FileEventStore :=
  attempts.foldl (fun s a ↦ finalState (s.attempt prims a)) store

/-- No attempt of the series adds to the stream. -/
def FailsOn (prims : Primitives) (stream : StreamId) : FileEventStore → List Attempt → Prop
  | _, [] => True
  | store, a :: rest =>
      (a.stream = stream → ∃ e store', store.attempt prims a = .error e store') ∧
        FailsOn prims stream (finalState (store.attempt prims a)) rest

/-- The stores that can come about: opened on some disk, and appended to.  The files of a
directory have distinct names. -/
inductive Reachable (prims : Primitives) : FileEventStore → Prop where
  | opened {config : FileStoreConfig} {disk disk' : Disk} {store : FileEventStore}
      (hnames : ∀ stream : StreamId, ((disk stream.asDirName).map Prod.fst).Nodup)
      (h : openOn prims config disk = .ok store disk') : Reachable prims store
  | attempted {store : FileEventStore} (h : Reachable prims store) (a : Attempt) :
      Reachable prims (finalState (store.attempt prims a))

variable {store store' : FileEventStore} {faults : Faults} {stream : StreamId} {record : Record}

/-- Every stream of a reachable store holds frames. -/
theorem Reachable.holds (h : Reachable prims store) (stream : StreamId) :
    ∃ frames, Holds prims (store.volume stream) frames := by
  induction h with
  | @opened config disk disk' store hnames h =>
      obtain ⟨frames, hholds, -⟩ :=
        scanStream_ok (hnames stream) ((openOn_ok h).2.2 stream)
      exact ⟨frames, hholds⟩
  | @attempted store h a ih =>
      obtain ⟨frames, hholds⟩ := ih
      by_cases hs : stream = a.stream
      · subst hs
        change ∃ frames, Holds prims
          ((finalState (store.append prims a.faults a.stream a.record)).volume a.stream) frames
        rw [finalState_append, volume_setVolume]
        cases happ : Volume.append prims store.config a.faults a.stream a.record
            (store.volume a.stream) with
        | ok head v =>
            obtain ⟨frame, -, -, -, hholds'⟩ := append_ok hholds happ
            exact ⟨_, hholds'⟩
        | error e v => exact ⟨frames, (append_error hholds happ).2⟩
      · exact ⟨frames, by rw [attempt, append_frame hs]; exact hholds⟩

/-- Streams are opened without a wedge. -/
theorem openOn_not_wedged {config : FileStoreConfig} {disk disk' : Disk}
    (h : openOn prims config disk = .ok store disk') (stream : StreamId) :
    (store.streams stream).wedged = false := by
  have hscan := (openOn_ok h).2.2 stream
  obtain ⟨r, _, -, h₁⟩ := bind_eq_ok.mp hscan
  obtain ⟨_, _, -, h₂⟩ := bind_eq_ok.mp h₁
  obtain ⟨head, _, -, h₃⟩ := bind_eq_ok.mp h₂
  have hstate := (pure_eq_ok.mp h₃).1
  change (store.volume stream).state.wedged = false
  rw [← hstate]

/-- An append depends on its own stream only. -/
theorem outcome_append_congr {t : StreamId} (hv : store'.volume t = store.volume t)
    (hc : store'.config = store.config) (faults : Faults) (record : Record) :
    outcome (store'.append prims faults t record) =
      outcome (store.append prims faults t record) := by
  change outcome (focus _ _ _ store') = outcome (focus _ _ _ store)
  rw [outcome_focus, outcome_focus, hv, hc]

/-- A wedged stream refuses an append and stays as it is. -/
theorem append_wedged (hw : (store.streams stream).wedged = true) (faults : Faults)
    (record : Record) :
    store.append prims faults stream record = .error (.streamWedged stream) store := by
  refine append_eq_error.mpr ⟨store.volume stream, append_of_wedged hw, ?_⟩
  change FileEventStore.mk (Function.update store.disk _ (store.disk _)) _
    (Function.update store.streams _ (store.streams _)) = store
  rw [Function.update_eq_self, Function.update_eq_self]

/-- Whatever is attempted, a wedged stream stays wedged. -/
theorem after_wedged (hw : (store.streams stream).wedged = true) (attempts : List Attempt) :
    ((store.after prims attempts).streams stream).wedged = true := by
  induction attempts generalizing store with
  | nil => exact hw
  | cons a rest ih =>
      refine ih ?_
      change ((finalState (store.append prims a.faults a.stream a.record)).volume
        stream).state.wedged = true
      by_cases hs : stream = a.stream
      · subst hs
        rw [append_wedged hw]
        exact hw
      · rw [append_frame hs]
        exact hw

/-- Attempts that fail add no frame to a stream. -/
theorem FailsOn.holds {attempts : List Attempt} (hf : FailsOn prims stream store attempts)
    {frames : List Bytes} (h : Holds prims (store.volume stream) frames) :
    Holds prims ((store.after prims attempts).volume stream) frames := by
  induction attempts generalizing store with
  | nil => exact h
  | cons a rest ih =>
      refine ih hf.2 ?_
      by_cases hs : stream = a.stream
      · subst hs
        obtain ⟨e, store', ha⟩ := hf.1 rfl
        obtain ⟨v, happ, hset⟩ := append_eq_error.mp ha
        change Holds prims ((finalState (store.attempt prims a)).volume a.stream) frames
        rw [ha, ← hset]
        change Holds prims ((store.setVolume a.stream v).volume a.stream) frames
        rw [volume_setVolume]
        exact (append_error h happ).2
      · change Holds prims ((finalState (store.attempt prims a)).volume stream) frames
        rw [attempt, append_frame hs]
        exact h

end FileEventStore

open FileEventStore

/-- The next append to the stream that succeeds, after `store'` and whatever fails in
between, gets position `seq` and predecessor `prevHash`. -/
def NextGets (prims : Primitives) (store' : FileEventStore) (stream : StreamId) (seq : Nat)
    (prevHash : Option RecordHash) : Prop :=
  ∀ attempts, FailsOn prims stream store' attempts → ∀ faults record head store'',
    (store'.after prims attempts).append prims faults stream record = .ok head store'' →
      head.seq = seq ∧ ∃ frame, encodeFrame prims record seq prevHash = .ok frame ∧
        head.hash = hashFrame prims frame ∧
        readFrameBytesAt (store''.volume stream).files (store''.volume stream).state.segments
          stream seq = .ok frame

/-- A stream that holds frames gives out the next position behind them. -/
theorem nextGets_of_holds {store' : FileEventStore} {stream : StreamId} {frames : List Bytes}
    (h : Holds prims (store'.volume stream) frames) :
    NextGets prims store' stream frames.length (lastHash prims frames) := by
  intro attempts hf faults record head store'' happ
  obtain ⟨v, happ', rfl⟩ := append_eq_ok.mp happ
  obtain ⟨frame, hnext, rfl, -, hholds⟩ := append_ok (hf.holds h) happ'
  refine ⟨rfl, frame, (nextFrame_small hnext).1, rfl, ?_⟩
  rw [volume_setVolume, hholds.fetch stream (by rw [List.length_append]; exact Nat.lt_succ_self _),
    List.getElem_concat_length rfl]

/-- What an append that failed leaves behind, in every store that can come about.  No view
changes, and the other streams go on as before.  It was refused by a wedged stream; or it
failed before the write phase, and the next append that succeeds gets what it would have
got; or it failed in the write phase, and the stream is wedged until it is opened again. -/
theorem failed_append {store store' : FileEventStore} (h : Reachable prims store)
    {faults : Faults} {stream : StreamId} {record : Record} {e : PersistenceError}
    (ha : store.append prims faults stream record = .error e store') :
    (∀ t, SameView prims store store' t) ∧
    (∀ t, t ≠ stream → store'.volume t = store.volume t ∧ ∀ faults' record',
      outcome (store'.append prims faults' t record') =
        outcome (store.append prims faults' t record')) ∧
    ((store.streams stream).wedged = true ∧ e = .streamWedged stream ∧ store' = store ∨
      (store.streams stream).wedged = false ∧
        prepare prims store.config faults record (store.volume stream) =
          .error e (store'.volume stream) ∧
        (store'.streams stream).wedged = false ∧
        NextGets prims store' stream (store.streams stream).nextSeq
          ((store.streams stream).head.map StreamHead.hash) ∨
      (store.streams stream).wedged = false ∧
        (∃ frame v, prepare prims store.config faults record (store.volume stream) =
            .ok frame v ∧
          writePhase prims faults frame v = .error e (store'.volume stream)) ∧
        (store'.streams stream).wedged = true ∧
        (∀ attempts faults' record',
          (store'.after prims attempts).append prims faults' stream record' =
            .error (.streamWedged stream) (store'.after prims attempts)) ∧
        ∀ config disk disk' reopened, openOn prims config disk = .ok reopened disk' →
          (reopened.streams stream).wedged = false) := by
  obtain ⟨frames, hholds⟩ := h.holds stream
  have hframe : ∀ t, t ≠ stream → store'.volume t = store.volume t ∧
      store'.config = store.config := by
    intro t ht
    have hvol : (finalState (store.append prims faults stream record)).volume t = _ :=
      append_frame ht
    have hconf : (finalState (store.append prims faults stream record)).config = _ :=
      append_config
    rw [ha] at hvol hconf
    exact ⟨hvol, hconf⟩
  obtain ⟨v, happ, hset⟩ := append_eq_error.mp ha
  have hv : store'.volume stream = v := by
    rw [← hset, volume_setVolume]
  obtain ⟨hfailed, hholds'⟩ := append_error hholds happ
  rw [← hv] at hfailed hholds'
  refine ⟨fun t ↦ ?_, fun t ht ↦ ?_, ?_⟩
  · by_cases ht : t = stream
    · subst ht
      exact {
        head := hholds'.head_eq.trans hholds.head_eq.symm
        readFrom := hholds'.readFrom_congr hholds
        verify := hholds'.verify_congr hholds }
    · exact .of_volume (hframe t ht).1
  · exact ⟨(hframe t ht).1, outcome_append_congr (hframe t ht).1 (hframe t ht).2⟩
  · cases hfailed with
    | wedged hw he hsame =>
        have hstays : store.append prims faults stream record =
            .error (.streamWedged stream) store := append_wedged hw faults record
        rw [ha, EStateM.Result.error.injEq] at hstays
        exact Or.inl ⟨hw, he, hstays.2⟩
    | prepare hw hp hw' =>
        refine Or.inr (Or.inl ⟨hw, hp, hw', ?_⟩)
        have hn : (store.streams stream).nextSeq = frames.length := hholds.nextSeq_eq
        have hh : (store.streams stream).head = headOf prims frames := hholds.head_eq
        rw [hn, hh, headOf_map_hash]
        exact nextGets_of_holds hholds'
    | write hw hp hf hw' =>
        refine Or.inr (Or.inr ⟨hw, ⟨_, _, hp, hf⟩, hw', fun attempts faults' record' ↦ ?_,
          fun config disk disk' reopened hopen ↦ openOn_not_wedged hopen stream⟩)
        exact append_wedged (after_wedged hw' attempts) faults' record'

/-- A new segment file that cannot be opened: the next record still becomes the first. -/
theorem failed_append_sample :
    ∃ store store', openOn Sample.codec ⟨0⟩ (fun _ ↦ []) = .ok store store.disk ∧
      store.append Sample.codec { openFile := some .notFound } .topology Sample.firstRecord =
        .error (.io .notFound) store' ∧
      store'.head .topology = none ∧ (store'.streams .topology).wedged = false ∧
      NextGets Sample.codec store' .topology 0 none := by
  obtain ⟨store, hopen, -⟩ := exists_openOn_empty Sample.codec ⟨0⟩
  obtain ⟨-, hconfig, hscan⟩ := openOn_ok hopen
  have hblank : store.volume .topology = ⟨[], .blank⟩ := by
    have h := (hscan .topology).symm.trans scanStream_nil
    rw [EStateM.Result.ok.injEq] at h
    exact congrArg₂ Volume.mk h.2 h.1
  have ha : store.append Sample.codec { openFile := some .notFound } .topology
      Sample.firstRecord = .error (.io .notFound) (store.setVolume .topology ⟨[], .blank⟩) := by
    refine append_eq_error.mpr ⟨⟨[], .blank⟩, ?_, rfl⟩
    rw [hconfig, hblank]
    rfl
  have hstate : store.streams .topology = .blank := congrArg Volume.state hblank
  obtain ⟨hview, -, h⟩ := failed_append (.opened (fun _ ↦ by exact List.nodup_nil) hopen) ha
  refine ⟨store, _, hopen, ha, ?_, ?_⟩
  · rw [(hview .topology).head, FileEventStore.head, hstate]
    rfl
  · rw [hstate] at h
    rcases h with ⟨h, -⟩ | ⟨-, -, hw, hnext⟩ | ⟨-, ⟨_, _, h, -⟩, -⟩
    · cases h
    · exact ⟨hw, hnext⟩
    · rw [hconfig, hblank] at h
      cases h

end Koalisi.Persistence
