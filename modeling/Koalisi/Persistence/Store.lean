import Koalisi.Lib.Fallible
import Koalisi.Persistence.Chain
import Mathlib.Data.List.Sort
import Mathlib.Logic.Function.Basic

/-!
# The segmented file store

A stream is a directory of segment files, each named by the sequence number of
its first record and holding length-prefixed frames.  The store keeps an index
of every segment in memory and appends to the last one; it opens a new segment
when the last one holds `segmentMaxRecords` records.

The code of one stream runs on a `Volume`, the stream's directory together with
its in-memory state, and nothing is rolled back when it fails.  What the
operating system does to an append is an argument of it, `Faults`.  Reads find
the bytes that are on disk.  A file's path is its stream's directory and the
sequence number in its name, so a directory is a list of segment files with
distinct numbers, in no particular order.

Offsets, lengths and sequence numbers are `u64`; the model takes them from `Nat`,
where the conversions between them cannot fail and no sum saturates.
-/

namespace Koalisi.Persistence

open Koalisi.Lib.Framing (Bytes toLeBytes ofLeBytes)
open Koalisi.Lib.Fallible

/-! ## Files -/

/-- The segment files of a directory, by the sequence number in their name. -/
abbrev Files := List (Nat × Bytes)

namespace Files

/-- Open for appending, created if absent. -/
def openAppend (files : Files) (firstSeq : Nat) : Files :=
  if files.any (·.1 = firstSeq) then files else files ++ [(firstSeq, [])]

/-- Change the content of one file. -/
def modify (files : Files) (firstSeq : Nat) (change : Bytes → Bytes) : Files :=
  files.map fun f ↦ if f.1 = firstSeq then (f.1, change f.2) else f

/-- Write behind the end of one file. -/
def append (files : Files) (firstSeq : Nat) (bytes : Bytes) : Files :=
  files.modify firstSeq (· ++ bytes)

end Files

/-- One directory under the root for each name. -/
abbrev Disk := String → Files

/-! ## The state of a stream -/

/-- Configuration of a store. -/
structure FileStoreConfig where
  /-- Records per segment file before rotation. -/
  segmentMaxRecords : Nat := 1024
deriving DecidableEq, Repr

/-- In-memory index of one segment file. -/
structure SegmentIndex where
  /-- Sequence number of the first record, which also names the file. -/
  firstSeq : Nat
  /-- Byte offset of each frame's length prefix. -/
  frameOffsets : List Nat
deriving DecidableEq, Repr

/-- A buffered writer: the file it writes to, and what it has not written yet. -/
structure BufWriter where
  file : Nat
  buffer : Bytes
deriving DecidableEq, Repr

/-- Per-stream mutable state. -/
structure StreamState where
  /-- Segments in ascending order; the last is active. -/
  segments : List SegmentIndex
  /-- Next sequence number to assign. -/
  nextSeq : Nat
  /-- Current head, or `none` if empty. -/
  head : Option StreamHead
  /-- Writer for the active segment, if any. -/
  writer : Option BufWriter
  /-- Byte length of the active segment file. -/
  activeLen : Nat
  /-- Set after a failed write. -/
  wedged : Bool
deriving DecidableEq, Repr

/-- A stream's directory and its state. -/
structure Volume where
  files : Files
  state : StreamState
deriving DecidableEq, Repr

/-- A write that fails: so many bytes reached the file, so many stay in the buffer. -/
structure WriteFault where
  written : Nat
  kept : Nat
  error : IoError
deriving DecidableEq, Repr

/-- What goes wrong during one append. -/
structure Faults where
  /-- Flushing the closed segment. -/
  flush : Option WriteFault := none
  /-- Syncing the closed segment. -/
  sync : Option IoError := none
  /-- Opening the new segment file. -/
  openFile : Option IoError := none
  /-- Writing the frame. -/
  write : Option WriteFault := none
deriving DecidableEq, Repr

/-! ## Appending -/

/-- Fail if there is an error to fail with. -/
def failing (fault : Option IoError) : EStateM PersistenceError Volume Unit :=
  look fun _ ↦
    match fault with
    | some e => .error (.io e)
    | none => .ok ()

/-- Write through the buffered writer of the active segment and flush it. -/
def writeThrough (fault : Option WriteFault) (bytes : Bytes) :
    EStateM PersistenceError Volume Unit := fun v ↦
  match v.state.writer with
  | none => .error (.io (.other "no active segment writer")) v
  | some w =>
      let pending := w.buffer ++ bytes
      match fault with
      | some f =>
          -- there is no write to fail when there is nothing to write
          if pending = [] then .ok () v
          else .error (.io f.error) {
            files := v.files.append w.file (pending.take f.written)
            state := { v.state with
              writer := some ⟨w.file, (pending.drop f.written).take f.kept⟩ } }
      | none => .ok () {
          files := v.files.append w.file pending
          state := { v.state with writer := some ⟨w.file, []⟩ } }

/-- Whether the active segment is full or absent. -/
def needNew (config : FileStoreConfig) (state : StreamState) : Bool :=
  match state.segments.getLast? with
  | none => true
  | some seg => decide (config.segmentMaxRecords ≤ seg.frameOffsets.length)

/-- Flush and sync the segment that is closed, if there is one. -/
def closeSegment (faults : Faults) : EStateM PersistenceError Volume Unit := do
  match (← get).state.writer with
  | some _ => do
      writeThrough faults.flush []
      failing faults.sync
  | none => pure ()

/-- Start a segment at the next sequence number. -/
def startSegment (v : Volume) : Volume where
  files := v.files.openAppend v.state.nextSeq
  state := { v.state with
    writer := some ⟨v.state.nextSeq, []⟩
    segments := v.state.segments ++ [⟨v.state.nextSeq, []⟩]
    activeLen := 0 }

/-- Ensure that the active segment has room. -/
def rotateIfNeeded (config : FileStoreConfig) (faults : Faults) :
    EStateM PersistenceError Volume Unit := do
  if needNew config (← get).state then do
    closeSegment faults
    failing faults.openFile
    modify startSegment
  else pure ()

/-- Encode a record and check that the frame's length fits its prefix. -/
def encodeSized (prims : Primitives) (record : Record) (seq : SequenceNo)
    (prevHash : Option RecordHash) : Except PersistenceError Bytes := do
  let frame ← encodeFrame prims record seq prevHash
  if frame.length < 2 ^ 32 then .ok frame
  else .error (.encode "frame exceeds u32 length prefix")

/-- The work before a frame is written: rotation and encoding. -/
def prepare (prims : Primitives) (config : FileStoreConfig) (faults : Faults) (record : Record) :
    EStateM PersistenceError Volume Bytes := do
  rotateIfNeeded config faults
  look fun v ↦ encodeSized prims record v.state.nextSeq (v.state.head.map StreamHead.hash)

/-- Write one length-prefixed frame. -/
def writeFrame (faults : Faults) (frame : Bytes) : EStateM PersistenceError Volume Unit :=
  writeThrough faults.write (toLeBytes frame.length ++ frame)

/-- Refuse further appends. -/
def wedge (v : Volume) : Volume := { v with state := { v.state with wedged := true } }

/-- Note a frame's offset in the active segment. -/
def pushOffset (segments : List SegmentIndex) (offset : Nat) : List SegmentIndex :=
  match segments.getLast? with
  | none => segments
  | some seg => segments.dropLast ++ [{ seg with frameOffsets := seg.frameOffsets ++ [offset] }]

/-- The head after a frame was written. -/
def headAfter (prims : Primitives) (state : StreamState) (frame : Bytes) : StreamHead where
  seq := state.nextSeq
  hash := hashFrame prims frame

/-- The state after a frame was written. -/
def advance (prims : Primitives) (state : StreamState) (frame : Bytes) : StreamState :=
  { state with
    segments := pushOffset state.segments state.activeLen
    activeLen := state.activeLen + (4 + frame.length)
    nextSeq := state.nextSeq + 1
    head := some (headAfter prims state frame) }

/-- The write phase: a failure wedges the stream. -/
def writePhase (prims : Primitives) (faults : Faults) (frame : Bytes) :
    EStateM PersistenceError Volume StreamHead := fun v ↦
  match writeFrame faults frame v with
  | .error e v' => .error e (wedge v')
  | .ok () v' => .ok (headAfter prims v'.state frame)
      { v' with state := advance prims v'.state frame }

/-- Append a record to a stream. -/
def Volume.append (prims : Primitives) (config : FileStoreConfig) (faults : Faults)
    (stream : StreamId) (record : Record) :
    EStateM PersistenceError Volume StreamHead := do
  if (← get).state.wedged then throw (.streamWedged stream)
  else do
    let frame ← prepare prims config faults record
    writePhase prims faults frame

/-! ## Reading -/

/-- The segment that contains `seq`, searching newest-first. -/
def segmentContaining (segments : List SegmentIndex) (seq : Nat) : Option SegmentIndex :=
  segments.reverse.find? fun seg ↦
    seg.firstSeq ≤ seq && seq < seg.firstSeq + seg.frameOffsets.length

/-- The stored frame bytes of `seq`, without the length prefix. -/
def readFrameBytesAt (files : Files) (segments : List SegmentIndex) (stream : StreamId)
    (seq : Nat) : Except PersistenceError Bytes :=
  match segmentContaining segments seq with
  | none => .error (.decode stream seq "sequence not found in any segment")
  | some seg =>
      -- in range, as the segment contains `seq`
      let offset := seg.frameOffsets.getD (seq - seg.firstSeq) 0
      match files.lookup seg.firstSeq with
      | none => .error (.io .notFound)
      | some data =>
          if data.length < offset + 4 then .error (.io .unexpectedEof)
          else
            let len := ofLeBytes (data.drop offset)
            let available := data.length - (offset + 4)
            if available < len then
              .error (.decode stream seq "frame length exceeds segment bounds")
            else .ok ((data.drop (offset + 4)).take len)

/-- Read and decode the record at one position. -/
def Volume.recordAt (prims : Primitives) (stream : StreamId) (v : Volume) (seq : Nat) :
    Except PersistenceError StoredRecord := do
  let bytes ← readFrameBytesAt v.files v.state.segments stream seq
  decodeFrame prims bytes stream seq

/-- Up to `limit` records from `fromSeq` on. -/
def Volume.readFrom (prims : Primitives) (stream : StreamId) (fromSeq limit : Nat)
    (v : Volume) : Except PersistenceError (List StoredRecord) :=
  if limit = 0 then .ok []
  else if v.state.nextSeq = 0 then .ok []
  else
    let headSeq := v.state.nextSeq - 1
    if headSeq < fromSeq then .ok []
    else
      let last := min (fromSeq + (limit - 1)) headSeq
      (List.range' fromSeq (last + 1 - fromSeq)).mapM (v.recordAt prims stream)

/-- The hash of the record before `seq`, `none` before the first. -/
def predecessorHash (prims : Primitives) (files : Files) (segments : List SegmentIndex)
    (stream : StreamId) (seq : Nat) : Except PersistenceError (Option RecordHash) :=
  if seq = 0 then .ok none
  else do
    let bytes ← readFrameBytesAt files segments stream (seq - 1)
    return some (hashFrame prims bytes)

/-- Check the back-link of the record at one position, and hand on its hash. -/
def Volume.checkAt (prims : Primitives) (stream : StreamId) (v : Volume)
    (predecessor : Option RecordHash) (seq : Nat) :
    Except PersistenceError (Option RecordHash) := do
  let stored ← v.recordAt prims stream seq
  checkBackLink stream stored predecessor
  return some stored.hash

/-- Check the chain over a range of positions. -/
def Volume.verify (prims : Primitives) (stream : StreamId) (fromSeq toSeq : Nat) (v : Volume) :
    Except PersistenceError Unit :=
  if v.state.nextSeq = 0 then .error (.streamEmpty stream)
  else
    let headSeq := v.state.nextSeq - 1
    let last := min toSeq headSeq
    if last < fromSeq then .ok ()
    else do
      let predecessor ← predecessorHash prims v.files v.state.segments stream fromSeq
      let _ ← (List.range' fromSeq (last + 1 - fromSeq)).foldlM (v.checkAt prims stream) predecessor
      return ()

/-! ## Opening -/

/-- Where the scan of a segment file ended. -/
structure ScanEnd where
  offsets : List Nat
  pos : Nat
  seq : Nat
  torn : Bool
deriving DecidableEq, Repr

/-- Walk over the frames of a segment file from `pos` on.  Each frame is at least four
bytes long, so the number of bytes left is fuel enough. -/
def scanLoop (data : Bytes) : Nat → Nat → Nat → List Nat → ScanEnd
  | 0, pos, seq, offsets => ⟨offsets, pos, seq, false⟩
  | fuel + 1, pos, seq, offsets =>
      let remaining := data.length - pos
      if remaining = 0 then ⟨offsets, pos, seq, false⟩
      else if remaining < 4 then ⟨offsets, pos, seq, true⟩
      else
        let len := ofLeBytes (data.drop pos)
        if remaining < 4 + len then ⟨offsets, pos, seq, true⟩
        else scanLoop data fuel (pos + (4 + len)) (seq + 1) (offsets ++ [pos])

/-- What the scan of one segment file returns: its index, its valid length, and its
content afterwards. -/
structure ScannedSegment where
  index : SegmentIndex
  validLen : Nat
  content : Bytes
deriving DecidableEq, Repr

/-- Scan a single segment file.  A torn final frame is cut off in the last segment, and
is an error anywhere else. -/
def scanSegment (stream : StreamId) (firstSeq : Nat) (data : Bytes) (isLast : Bool) :
    Except PersistenceError ScannedSegment :=
  let r := scanLoop data data.length 0 firstSeq []
  if r.torn && !isLast then .error (.decode stream r.seq "torn frame in non-tail segment")
  else .ok {
    index := ⟨firstSeq, r.offsets⟩
    validLen := r.pos
    content := if r.torn then data.take r.pos else data }

/-- What the scan of a directory returns. -/
structure ScannedStream where
  segments : List SegmentIndex
  files : Files
  nextSeq : Nat
  activeLen : Nat
deriving DecidableEq, Repr

/-- Scan the segment files of a directory in ascending order. -/
def scanSegments (stream : StreamId) :
    Files → ScannedStream → Except PersistenceError ScannedStream
  | [], r => .ok r
  | (firstSeq, data) :: rest, r =>
      if firstSeq ≠ r.nextSeq then
        .error (.decode stream firstSeq
          s!"segment first_seq {firstSeq} does not continue from {r.nextSeq}")
      else do
        let seg ← scanSegment stream firstSeq data rest.isEmpty
        scanSegments stream rest {
          segments := r.segments ++ [seg.index]
          files := r.files ++ [(firstSeq, seg.content)]
          nextSeq := firstSeq + seg.index.frameOffsets.length
          activeLen := seg.validLen }

/-- The head of a scanned stream, its back-link re-verified. -/
def computeHead (prims : Primitives) (stream : StreamId) (files : Files)
    (segments : List SegmentIndex) (nextSeq : Nat) :
    Except PersistenceError (Option StreamHead) :=
  if nextSeq = 0 then .ok none
  else do
    let lastSeq := nextSeq - 1
    let bytes ← readFrameBytesAt files segments stream lastSeq
    let stored ← decodeFrame prims bytes stream lastSeq
    let predecessor ← predecessorHash prims files segments stream lastSeq
    checkBackLink stream stored predecessor
    return some ⟨lastSeq, stored.hash⟩

/-- Scan one stream's directory, building its state and recovering a torn tail.  The
directory is left listed in ascending order. -/
def scanStream (prims : Primitives) (stream : StreamId) :
    EStateM PersistenceError Files StreamState := do
  let r ← look fun files ↦
    scanSegments stream (files.insertionSort fun a b ↦ a.1 ≤ b.1) ⟨[], [], 0, 0⟩
  set r.files
  let head ← look fun files ↦ computeHead prims stream files r.segments r.nextSeq
  return {
    segments := r.segments
    nextSeq := r.nextSeq
    head := head
    writer := r.segments.getLast?.map fun seg ↦ ⟨seg.firstSeq, []⟩
    activeLen := r.activeLen
    wedged := false }

/-! ## The store -/

/-- An open store: its configuration, the state of each stream, and the disk below. -/
structure FileEventStore where
  disk : Disk
  config : FileStoreConfig
  streams : StreamId → StreamState

/-- Work on one stream's directory. -/
def inDir {α : Type} (stream : StreamId) (x : EStateM PersistenceError Files α) :
    EStateM PersistenceError Disk α :=
  focus (fun disk ↦ disk stream.asDirName)
    (fun disk files ↦ Function.update disk stream.asDirName files) x

/-- The state of a stream without segments. -/
def StreamState.blank : StreamState where
  segments := []
  nextSeq := 0
  head := none
  writer := none
  activeLen := 0
  wedged := false

/-- Scan the directories of a list of streams. -/
def scanStreams (prims : Primitives) :
    List StreamId → EStateM PersistenceError Disk (StreamId → StreamState)
  | [] => pure fun _ ↦ .blank
  | stream :: rest => do
      let state ← inDir stream (scanStream prims stream)
      let others ← scanStreams prims rest
      return Function.update others stream state

namespace FileEventStore

/-- Open a store on a disk. -/
def openOn (prims : Primitives) (config : FileStoreConfig) :
    EStateM PersistenceError Disk FileEventStore := do
  let streams ← scanStreams prims StreamId.all
  return ⟨← get, config, streams⟩

/-- One stream's share of the store. -/
def volume (store : FileEventStore) (stream : StreamId) : Volume where
  files := store.disk stream.asDirName
  state := store.streams stream

/-- Replace one stream's share. -/
def setVolume (store : FileEventStore) (stream : StreamId) (v : Volume) : FileEventStore where
  disk := Function.update store.disk stream.asDirName v.files
  config := store.config
  streams := Function.update store.streams stream v.state

/-- Append a record to a stream. -/
def append (prims : Primitives) (faults : Faults) (stream : StreamId) (record : Record) :
    EStateM PersistenceError FileEventStore StreamHead := fun store ↦
  focus (fun store ↦ volume store stream) (fun store v ↦ setVolume store stream v)
    (Volume.append prims store.config faults stream record) store

/-- Records of a stream. -/
def readFrom (prims : Primitives) (store : FileEventStore) (stream : StreamId)
    (fromSeq limit : Nat) : Except PersistenceError (List StoredRecord) :=
  (store.volume stream).readFrom prims stream fromSeq limit

/-- The current head of a stream. -/
def head (store : FileEventStore) (stream : StreamId) : Option StreamHead :=
  (store.streams stream).head

/-- Check the chain of a stream. -/
def verify (prims : Primitives) (store : FileEventStore) (stream : StreamId)
    (fromSeq toSeq : Nat) : Except PersistenceError Unit :=
  (store.volume stream).verify prims stream fromSeq toSeq

end FileEventStore

/-- Drop a stream's state: its writer writes out what it still holds. -/
def Volume.close (v : Volume) : Files :=
  match v.state.writer with
  | none => v.files
  | some w => v.files.append w.file w.buffer

/-- Drop a store. -/
def FileEventStore.close (store : FileEventStore) : Disk :=
  StreamId.all.foldl
    (fun disk stream ↦ Function.update disk stream.asDirName (store.volume stream).close)
    store.disk

end Koalisi.Persistence
