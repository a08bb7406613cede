import Koalisi.Persistence.Ledger

/-!
# The store refines independent append-only lists

A client appends records to streams, and now and then drops the store and opens
it again, perhaps with another segment size.  As long as the file system does what
it is asked to, it gets the same answers as from six ledgers, and what it reads,
at any time, is what the ledgers hold: `store_refines_ledgers`.  The simulation
relation is `Keeps`, kept by each step.
-/

namespace Koalisi.Persistence

open Koalisi.Lib.Framing Koalisi.Lib.Fallible Koalisi.Lib.HashChain

variable {prims : Primitives}

/-! ## Clients -/

/-- What a client does with a store. -/
inductive Op where
  | append (stream : StreamId) (record : Record)
  | reopen (config : FileStoreConfig)
deriving DecidableEq, Repr

/-- What it gets back. -/
inductive Response where
  | appended (result : Except PersistenceError StreamHead)
  | opened
deriving DecidableEq

namespace FileEventStore

/-- One step of a client; a store that cannot be opened again is gone. -/
def step (prims : Primitives) (store : FileEventStore) : Op → Option (Response × FileEventStore)
  | .append stream record =>
      let r := store.append prims {} stream record
      some (.appended (outcome r), finalState r)
  | .reopen config =>
      match openOn prims config store.close with
      | .ok store' _ => some (.opened, store')
      | .error _ _ => none

/-- The steps of a client, one after the other. -/
def run (prims : Primitives) : List Op → FileEventStore → Option (List Response × FileEventStore)
  | [], store => some ([], store)
  | op :: ops, store => do
      let (response, store') ← store.step prims op
      let (responses, store'') ← run prims ops store'
      return (response :: responses, store'')

/-- A client of a store on a new disk. -/
def session (prims : Primitives) (config : FileStoreConfig) (ops : List Op) :
    Option (List Response × FileEventStore) :=
  match openOn prims config fun _ ↦ [] with
  | .ok store _ => store.run prims ops
  | .error _ _ => none

end FileEventStore

/-- A ledger for each stream. -/
abbrev Ledgers (prims : Primitives) := StreamId → Ledger prims

namespace Ledgers

/-- No records in any stream. -/
def empty (prims : Primitives) : Ledgers prims := fun _ ↦ .empty

/-- One step of a client of ledgers. -/
def step (ledgers : Ledgers prims) : Op → Response × Ledgers prims
  | .append stream record =>
      (.appended ((ledgers stream).append record).1,
        Function.update ledgers stream ((ledgers stream).append record).2)
  | .reopen _ => (.opened, ledgers)

/-- The steps of a client of ledgers, one after the other. -/
def run : List Op → Ledgers prims → List Response × Ledgers prims
  | [], ledgers => ([], ledgers)
  | op :: ops, ledgers =>
      let (response, ledgers') := ledgers.step op
      let (responses, ledgers'') := run ops ledgers'
      (response :: responses, ledgers'')

end Ledgers

/-- The records that a client has appended to a stream with success. -/
def appendedTo (stream : StreamId) : List Op → List Response → List Record
  | .append s record :: ops, .appended (.ok _) :: responses =>
      if s = stream then record :: appendedTo stream ops responses
      else appendedTo stream ops responses
  | _ :: ops, _ :: responses => appendedTo stream ops responses
  | _, _ => []

/-! ## What a client sees -/

/-- The store shows these lists to its readers: the sequence numbers of each are dense,
each record carries the hash of its predecessor's frame, and the head, every slice and
every check agree with the list. -/
structure Shows (prims : Primitives) (store : FileEventStore)
    (lists : StreamId → List StoredRecord) : Prop where
  dense : ∀ stream, (lists stream).map StoredRecord.seq = List.range (lists stream).length
  chained : ∀ stream, Chained none (lists stream)
  hashed : ∀ stream i (h : i < (lists stream).length), ∃ bytes,
    readFrameBytesAt (store.volume stream).files (store.volume stream).state.segments stream i =
      .ok bytes ∧ (lists stream)[i].hash = hashFrame prims bytes
  head : ∀ stream, store.head stream =
    (lists stream).getLast?.map fun last ↦ ⟨last.seq, last.hash⟩
  readFrom : ∀ stream fromSeq limit, store.readFrom prims stream fromSeq limit =
    .ok (((lists stream).drop fromSeq).take limit)
  verify : ∀ stream fromSeq toSeq, fromSeq ≤ toSeq → toSeq < (lists stream).length →
    store.verify prims stream fromSeq toSeq = .ok ()

/-- The two stores look the same to the readers of a stream. -/
structure SameView (prims : Primitives) (store store' : FileEventStore) (stream : StreamId) :
    Prop where
  head : store'.head stream = store.head stream
  readFrom : ∀ fromSeq limit,
    store'.readFrom prims stream fromSeq limit = store.readFrom prims stream fromSeq limit
  verify : ∀ fromSeq toSeq,
    store'.verify prims stream fromSeq toSeq = store.verify prims stream fromSeq toSeq

theorem SameView.of_volume {store store' : FileEventStore} {stream : StreamId}
    (h : store'.volume stream = store.volume stream) : SameView prims store store' stream where
  head := congrArg (fun v ↦ v.state.head) h
  readFrom fromSeq limit := congrArg (Volume.readFrom prims stream fromSeq limit) h
  verify fromSeq toSeq := congrArg (Volume.verify prims stream fromSeq toSeq) h

/-! ## The simulation -/

/-- The streams hold the frames of the ledgers, and none is wedged. -/
def Keeps (store : FileEventStore) (ledgers : Ledgers prims) : Prop :=
  ∀ stream, Holds prims (store.volume stream) (ledgers stream).frames ∧
    (store.volume stream).state.wedged = false

variable {store : FileEventStore} {ledgers : Ledgers prims}

/-- The head of a ledger is the head of its list. -/
theorem Ledger.head_eq (ledger : Ledger prims) :
    ledger.head = ledger.stored.getLast?.map fun last ↦ ⟨last.seq, last.hash⟩ := by
  rcases List.eq_nil_or_concat ledger.entries with h | ⟨init, e, h⟩
  · rw [head, frames, stored, h]
    rfl
  · rw [List.concat_eq_append] at h
    rw [head, frames, stored, h, List.map_append, List.map_singleton, headOf_concat,
      storedFrom_concat, List.getLast?_concat, List.length_map, Nat.zero_add]
    rfl

/-- A store that keeps the ledgers shows them. -/
theorem Keeps.shows (hp : prims.RoundTrips) (h : Keeps store ledgers) :
    Shows prims store fun stream ↦ (ledgers stream).stored where
  dense stream := by
    rw [Ledger.length_stored, List.range_eq_range']
    exact storedFrom_map_seq 0 none _
  chained stream := chained_storedFrom 0 none _
  hashed stream i hi := by
    have hfr : i < (ledgers stream).frames.length := by
      rw [Ledger.length_frames, ← Ledger.length_stored]
      exact hi
    have hrec := Ledger.recordAt_eq hp (h stream).1 stream hi
    rw [(h stream).1.recordAt_eq hfr] at hrec
    exact ⟨_, (h stream).1.fetch stream hfr, (decodeFrame_ok hrec).2.1⟩
  head stream := (h stream).1.head_eq.trans (ledgers stream).head_eq
  readFrom stream := Ledger.readFrom_eq hp (h stream).1 stream
  verify stream _ _ := Ledger.verify_eq hp (h stream).1 stream

/-- An append to a store does what it does to the ledger. -/
theorem Keeps.append (h : Keeps store ledgers) (stream : StreamId) (record : Record) :
    outcome (store.append prims {} stream record) = ((ledgers stream).append record).1 ∧
      Keeps (finalState (store.append prims {} stream record))
        (Function.update ledgers stream ((ledgers stream).append record).2) := by
  obtain ⟨hholds, hw⟩ := h stream
  obtain ⟨v, hv, happ⟩ := append_clean hholds hw store.config stream record
  -- the other streams are as they were
  have hkeep : ∀ ledger : Ledger prims, Holds prims v ledger.frames →
      Keeps (store.setVolume stream v) (Function.update ledgers stream ledger) := by
    intro ledger hl t
    by_cases ht : t = stream
    · subst ht
      rw [FileEventStore.volume_setVolume, Function.update_self]
      exact ⟨hl, hv⟩
    · rw [FileEventStore.volume_setVolume_of_ne store v ht, Function.update_of_ne ht]
      exact h t
  cases hn : nextFrame prims (ledgers stream).frames record with
  | ok frame =>
      rw [hn] at happ
      obtain ⟨hres, hentries⟩ := (ledgers stream).append_of_ok hn
      rw [FileEventStore.append_eq_ok.mpr ⟨v, happ.1, rfl⟩]
      refine ⟨hres.symm, hkeep _ ?_⟩
      rw [Ledger.frames, hentries, List.map_append]
      exact happ.2
  | error e =>
      rw [hn] at happ
      rw [FileEventStore.append_eq_error.mpr ⟨v, happ.1, rfl⟩,
        (ledgers stream).append_of_error hn]
      exact ⟨rfl, hkeep _ happ.2⟩

/-- A directory whose segments hold the frames of a ledger is scanned with success. -/
theorem Ledger.scan (hp : prims.RoundTrips) (ledger : Ledger prims) (stream : StreamId)
    {files : Files} {closed : List (List Bytes)} {last : List Bytes} {tail : Bytes}
    (heq : files = layout 0 closed ++ [(closed.flatten.length, packed last ++ tail)])
    (hne : ∀ seg ∈ closed, seg ≠ []) (hframes : closed.flatten ++ last = ledger.frames)
    (ht : Rest tail) : ∃ state files', scanStream prims stream files = .ok state files' ∧
      Holds prims ⟨files', state⟩ ledger.frames ∧ state.wedged = false := by
  have hsmall : ∀ p ∈ closed.flatten ++ last, Small p := by
    rw [hframes]
    exact ledger.grown.small
  rw [← hframes]
  exact scanStream_holds heq hne hsmall ht
    fun init p hip ↦ ledger.grown.tail hp stream (hframes.symm.trans hip)

/-- The writer of a stream that is not wedged writes out nothing when it is dropped. -/
theorem Holds.close_eq {v : Volume} {frames : List Bytes} (h : Holds prims v frames)
    (hw : v.state.wedged = false) : v.close = v.files := by
  unfold Volume.close
  cases hwr : v.state.writer with
  | none => rfl
  | some w =>
      change v.files.append w.file w.buffer = v.files
      rw [h.drained hw hwr, Files.append_nil]

/-- The directory that a stream leaves behind is scanned with success. -/
theorem Ledger.rescan (hp : prims.RoundTrips) {ledger : Ledger prims} {v : Volume}
    (h : Holds prims v ledger.frames) (hw : v.state.wedged = false) (stream : StreamId) :
    ∃ state files', scanStream prims stream v.close = .ok state files' ∧
      Holds prims ⟨files', state⟩ ledger.frames ∧ state.wedged = false := by
  rw [h.close_eq hw]
  rcases h with ⟨rfl, hnil⟩ | ⟨closed, last, spill, h, hframes⟩
  · refine ⟨_, _, scanStream_nil, Or.inl ⟨rfl, hnil⟩, rfl⟩
  · have heq := h.files_eq
    rw [h.spill_eq hw] at heq
    exact ledger.scan hp stream heq h.nonempty hframes rest_nil

/-- A disk whose directories are found to hold the ledgers is opened with success. -/
theorem exists_openOn_keeps {disk : Disk} (config : FileStoreConfig)
    (h : ∀ stream : StreamId, ∃ state files', scanStream prims stream (disk stream.asDirName) =
      .ok state files' ∧ Holds prims ⟨files', state⟩ (ledgers stream).frames ∧
        state.wedged = false) :
    ∃ store, FileEventStore.openOn prims config disk = .ok store store.disk ∧
      Keeps store ledgers := by
  obtain ⟨store, hopen⟩ := FileEventStore.exists_openOn config fun stream ↦
    have ⟨state, files, hscan, _⟩ := h stream
    ⟨state, files, hscan⟩
  refine ⟨store, hopen, fun stream ↦ ?_⟩
  obtain ⟨state, files, hscan, hholds, hw⟩ := h stream
  obtain ⟨-, -, hscans⟩ := FileEventStore.openOn_ok hopen
  rw [hscans stream, EStateM.Result.ok.injEq] at hscan
  obtain ⟨rfl, rfl⟩ := hscan
  exact ⟨hholds, hw⟩

/-- A new store keeps empty ledgers. -/
theorem exists_openOn_empty (prims : Primitives) (config : FileStoreConfig) :
    ∃ store, FileEventStore.openOn prims config (fun _ ↦ []) = .ok store store.disk ∧
      Keeps store (Ledgers.empty prims) :=
  exists_openOn_keeps config fun _ ↦ ⟨_, _, scanStream_nil, Or.inl ⟨rfl, rfl⟩, rfl⟩

/-- A store that is dropped and opened again keeps the ledgers. -/
theorem Keeps.reopen (hp : prims.RoundTrips) (h : Keeps store ledgers)
    (config : FileStoreConfig) :
    ∃ store', FileEventStore.openOn prims config store.close = .ok store' store'.disk ∧
      Keeps store' ledgers := by
  refine exists_openOn_keeps config fun stream ↦ ?_
  rw [store.close_asDirName stream]
  exact Ledger.rescan hp (h stream).1 (h stream).2 stream

/-- One step of a client is the same step on the ledgers. -/
theorem Keeps.step (hp : prims.RoundTrips) (h : Keeps store ledgers) (op : Op) :
    ∃ store', store.step prims op = some ((ledgers.step op).1, store') ∧
      Keeps store' (ledgers.step op).2 := by
  cases op with
  | append stream record =>
      obtain ⟨hres, hkeeps⟩ := h.append stream record
      refine ⟨_, ?_, hkeeps⟩
      change some (Response.appended _, _) = some (Response.appended _, _)
      rw [hres]
  | reopen config =>
      obtain ⟨store', hopen, hkeeps⟩ := h.reopen hp config
      refine ⟨store', ?_, hkeeps⟩
      change (match FileEventStore.openOn prims config store.close with
        | .ok store' _ => some (Response.opened, store')
        | .error _ _ => none) = _
      rw [hopen]
      rfl

/-- So is a whole run. -/
theorem Keeps.run (hp : prims.RoundTrips) (h : Keeps store ledgers) (ops : List Op) :
    ∃ store', store.run prims ops = some ((ledgers.run ops).1, store') ∧
      Keeps store' (ledgers.run ops).2 := by
  induction ops generalizing store ledgers with
  | nil => exact ⟨store, rfl, h⟩
  | cons op ops ih =>
      obtain ⟨store', hstep, hkeeps⟩ := h.step hp op
      obtain ⟨store'', hrun, hkeeps'⟩ := ih hkeeps
      refine ⟨store'', ?_, hkeeps'⟩
      rw [FileEventStore.run, hstep]
      change (do let (responses, s) ← store'.run prims ops; pure (_ :: responses, s)) = _
      rw [hrun]
      rfl

/-- So is a whole session, from empty ledgers. -/
theorem exists_session (hp : prims.RoundTrips) (config : FileStoreConfig) (ops : List Op) :
    ∃ store, FileEventStore.session prims config ops =
        some ((Ledgers.run ops (Ledgers.empty prims)).1, store) ∧
      Keeps store (Ledgers.run ops (Ledgers.empty prims)).2 := by
  obtain ⟨start, hopen, hkeeps⟩ := exists_openOn_empty prims config
  obtain ⟨store, hrun, hkeeps'⟩ := hkeeps.run hp ops
  refine ⟨store, ?_, hkeeps'⟩
  unfold FileEventStore.session
  rw [hopen]
  exact hrun

/-- A ledger gains the records that are appended to it. -/
theorem Ledgers.records_run (ops : List Op) (ledgers : Ledgers prims) (stream : StreamId) :
    ((ledgers.run ops).2 stream).records =
      (ledgers stream).records ++ appendedTo stream ops (ledgers.run ops).1 := by
  induction ops generalizing ledgers with
  | nil => exact (List.append_nil _).symm
  | cons op ops ih =>
      change ((run ops (ledgers.step op).2).2 stream).records =
        _ ++ appendedTo stream (op :: ops) ((ledgers.step op).1 :: (run ops (ledgers.step op).2).1)
      rw [ih]
      cases op with
      | reopen config => rfl
      | append s record =>
          change (Function.update ledgers s ((ledgers s).append record).2 stream).records ++ _ =
            _ ++ appendedTo stream (.append s record :: ops)
              (.appended ((ledgers s).append record).1 :: _)
          cases hn : nextFrame prims (ledgers s).frames record with
          | error e =>
              rw [(ledgers s).append_of_error hn, Function.update_eq_self]
              rfl
          | ok frame =>
              obtain ⟨hres, hentries⟩ := (ledgers s).append_of_ok hn
              rw [hres]
              change _ = _ ++ (if s = stream then _ else _)
              split
              · rename_i hs
                subst hs
                rw [Function.update_self, Ledger.records, hentries, List.map_append,
                  List.append_assoc]
                rfl
              · rename_i hs
                rw [Function.update_of_ne (Ne.symm hs)]

/-- The store refines independent append-only lists.  A client of a store on a new disk
gets the answers of empty ledgers, and then the store shows the ledgers: each is the
list of the records appended to that stream.  An append to one stream leaves the view
of the others alone. -/
theorem store_refines_ledgers (hp : prims.RoundTrips) (config : FileStoreConfig)
    (ops : List Op) :
    ∃ store, FileEventStore.session prims config ops =
        some ((Ledgers.run ops (Ledgers.empty prims)).1, store) ∧
      Shows prims store
        (fun stream ↦ ((Ledgers.run ops (Ledgers.empty prims)).2 stream).stored) ∧
      (∀ stream, (((Ledgers.run ops (Ledgers.empty prims)).2 stream).stored.map
          StoredRecord.record) =
        appendedTo stream ops (Ledgers.run ops (Ledgers.empty prims)).1) ∧
      ∀ stream record t, t ≠ stream →
        SameView prims store (finalState (store.append prims {} stream record)) t := by
  obtain ⟨store, hrun, hkeeps⟩ := exists_session hp config ops
  refine ⟨store, hrun, hkeeps.shows hp, fun stream ↦ ?_, fun stream record t ht ↦ ?_⟩
  · rw [Ledger.stored_map_record, Ledgers.records_run]
    rfl
  · exact .of_volume (FileEventStore.append_frame ht)

/-- Two records, each in a segment of its own, and the store opened again. -/
theorem store_refines_ledgers_sample :
    ∃ store, FileEventStore.session Sample.codec ⟨1⟩ [.append .topology Sample.firstRecord,
        .append .topology Sample.secondRecord, .reopen ⟨0⟩] =
      some ([.appended (.ok ⟨0, ⟨.sha256, Sample.firstDigest⟩⟩),
        .appended (.ok ⟨1, ⟨.sha256, Sample.secondDigest⟩⟩), .opened], store) ∧
      store.readFrom Sample.codec .topology 1 5 = .ok [⟨1, some ⟨.sha256, Sample.firstDigest⟩,
        ⟨.sha256, Sample.secondDigest⟩, Sample.secondRecord⟩] := by
  obtain ⟨store, hrun, hshows, -, -⟩ := store_refines_ledgers Sample.roundTrips ⟨1⟩
    [.append .topology Sample.firstRecord, .append .topology Sample.secondRecord, .reopen ⟨0⟩]
  have hresponses : (Ledgers.run [.append .topology Sample.firstRecord,
      .append .topology Sample.secondRecord, .reopen ⟨0⟩] (Ledgers.empty Sample.codec)).1 =
      [.appended (.ok ⟨0, ⟨.sha256, Sample.firstDigest⟩⟩),
        .appended (.ok ⟨1, ⟨.sha256, Sample.secondDigest⟩⟩), .opened] := by decide +kernel
  have hstored : (((Ledgers.run [.append .topology Sample.firstRecord,
      .append .topology Sample.secondRecord, .reopen ⟨0⟩]
      (Ledgers.empty Sample.codec)).2 .topology).stored.drop 1).take 5 =
        [⟨1, some ⟨.sha256, Sample.firstDigest⟩, ⟨.sha256, Sample.secondDigest⟩,
          Sample.secondRecord⟩] := by decide +kernel
  rw [hresponses] at hrun
  have hread := hshows.readFrom .topology 1 5
  rw [hstored] at hread
  exact ⟨store, hrun, hread⟩

end Koalisi.Persistence
