import Koalisi.Persistence.Ledger
import Koalisi.Persistence.Wire
import Koalisi.Topology.EventLog

/-!
# Replay of the topology stream

The event log is rebuilt from the topology stream, which is read in batches from a
cursor on to its head: each record is decoded back to an event, and the events are
appended to a new log.  The cursor moves past the last record of each batch, so the
loop ends on every store.

A stream that holds the records of a list of events replays to the log of that list,
and from position `k` on to the log of what is left of it (`replayIntoEventLog_eq`).
-/

namespace Koalisi.Persistence

open Koalisi.Lib.Framing (Bytes)
open Koalisi.Lib.Fallible
open Koalisi.Topology

variable {V HE VW HW : Type} {prims : Primitives}

/-! ## Records of events -/

/-- Project an event onto a record of the topology stream. -/
def topologyRecord (codec : PayloadCodec VW HW) (proj : Projections V HE VW HW)
    (event : TemporalEvent V HE) : Except String Record := do
  let buf ← codec.intoWriter (.fromEvent proj event)
  return {
    timestamp := event.timestamp
    schemaVersion := wireTopologySchemaVersion
    parents := []
    payload := .plain buf }

/-- Decode one record of the topology stream back to an event. -/
def decodeEvent (codec : PayloadCodec VW HW) (proj : Projections V HE VW HW)
    (stored : StoredRecord) : Except PersistenceError (TemporalEvent V HE) :=
  if wireTopologySchemaVersion < stored.record.schemaVersion then
    .error (.schemaVersionUnsupported stored.record.schemaVersion wireTopologySchemaVersion)
  else
    match stored.record.payload with
    | .sealed _ _ _ => .error (.decode .topology stored.seq
        "Topology stream records are Plain; found Sealed")
    | .plain bytes => do
        let wire ← (codec.fromReader bytes).mapError fun e ↦ .decode .topology stored.seq e
        (wire.tryIntoEvent proj).mapError fun e ↦ .decode .topology stored.seq e.message

/-- The record of an event decodes back to the event. -/
theorem decodeEvent_topologyRecord {codec : PayloadCodec VW HW} (hc : codec.RoundTrips)
    {proj : Projections V HE VW HW} (hproj : proj.RoundTrips) {event : TemporalEvent V HE}
    {stored : StoredRecord} (h : topologyRecord codec proj event = .ok stored.record) :
    decodeEvent codec proj stored = .ok event := by
  obtain ⟨buf, hbuf, hrec⟩ := except_bind_eq_ok.mp h
  unfold decodeEvent
  rw [← Except.ok.inj hrec, if_neg (by exact UInt16.lt_irrefl _)]
  refine except_bind_eq_ok.mpr ⟨.fromEvent proj event, ?_, ?_⟩
  · rw [hc _ _ hbuf, Except.mapError]
  · rw [WireTopologyEvent.tryIntoEvent_fromEvent hproj, Except.mapError]

/-! ## The loop -/

/-- Records read per batch. -/
def replayBatch : Nat := 1024

/-- Decode a record and append its event. -/
def replayRecord (codec : PayloadCodec VW HW) (proj : Projections V HE VW HW)
    (log : EventLog V HE) (stored : StoredRecord) : Except PersistenceError (EventLog V HE) := do
  return log.append (← decodeEvent codec proj stored)

/-- The records a read returns are those of the positions it visits. -/
theorem readFrom_seq {v : Volume} {stream : StreamId} {fromSeq limit : Nat}
    {batch : List StoredRecord} (h : v.readFrom prims stream fromSeq limit = .ok batch)
    {stored : StoredRecord} (hs : stored ∈ batch) :
    fromSeq ≤ stored.seq ∧ stored.seq < v.state.nextSeq := by
  by_cases hout : limit = 0 ∨ v.state.nextSeq ≤ fromSeq
  · rw [readFrom_of_ge hout] at h
    cases h
    cases hs
  · rw [readFrom_of_lt (by omega) (by omega)] at h
    obtain ⟨hlen, hrec⟩ := mapM_range'_eq_ok_iff.mp h
    obtain ⟨i, hi, rfl⟩ := List.getElem_of_mem hs
    obtain ⟨bytes, -, hdec⟩ := except_bind_eq_ok.mp (hrec i hi)
    rw [(decodeFrame_ok hdec).1]
    refine ⟨Nat.le_add_right _ _, ?_⟩
    change (fromSeq + i : Nat) < v.state.nextSeq
    omega

/-- Replay from a cursor on, into a log. -/
def replayFrom (prims : Primitives) (codec : PayloadCodec VW HW)
    (proj : Projections V HE VW HW) (store : FileEventStore) (cursor : SequenceNo)
    (log : EventLog V HE) : Except PersistenceError (EventLog V HE) :=
  match _hread : store.readFrom prims .topology cursor replayBatch with
  | .error e => .error e
  | .ok batch =>
      match hlast : batch.getLast? with
      | none => .ok log
      | some last => do
          let log ← batch.foldlM (replayRecord codec proj) log
          replayFrom prims codec proj store (last.seq + 1) log
termination_by (store.streams .topology).nextSeq - cursor
decreasing_by
  -- the last record of a batch lies between the cursor and the head
  have hseq : cursor ≤ last.seq ∧ last.seq < (store.streams .topology).nextSeq :=
    readFrom_seq _hread (List.mem_of_getLast? hlast)
  exact Nat.sub_lt_sub_left (Nat.lt_of_le_of_lt hseq.1 hseq.2) (Nat.lt_succ_of_le hseq.1)

/-- Replay records of the topology stream from a position on, into a new log. -/
def replayIntoEventLog (prims : Primitives) (codec : PayloadCodec VW HW)
    (proj : Projections V HE VW HW) (store : FileEventStore) (fromSeq : SequenceNo) :
    Except PersistenceError (EventLog V HE) :=
  replayFrom prims codec proj store fromSeq .new

/-! ## What is replayed -/

variable {codec : PayloadCodec VW HW} {proj : Projections V HE VW HW} {store : FileEventStore}

/-- A batch of records that decode is appended event by event. -/
theorem foldlM_replayRecord {batch : List StoredRecord} {events : List (TemporalEvent V HE)}
    (h : List.Forall₂ (fun stored event ↦ decodeEvent codec proj stored = .ok event) batch events)
    (log : EventLog V HE) :
    batch.foldlM (replayRecord codec proj) log = .ok (events.foldl EventLog.append log) := by
  induction h generalizing log with
  | nil => rfl
  | cons hd _ ih =>
      rw [List.foldlM_cons, replayRecord, hd]
      exact ih _

/-- A stream whose records decode to events is replayed event by event. -/
theorem replayFrom_eq {stored : List StoredRecord}
    (hread : ∀ fromSeq limit, store.readFrom prims .topology fromSeq limit =
      .ok ((stored.drop fromSeq).take limit))
    (hseq : ∀ i (h : i < stored.length), stored[i].seq = i)
    {events : List (TemporalEvent V HE)}
    (hdec : List.Forall₂ (fun stored event ↦ decodeEvent codec proj stored = .ok event)
      stored events) (cursor : Nat) (log : EventLog V HE) :
    replayFrom prims codec proj store cursor log =
      .ok ((events.drop cursor).foldl EventLog.append log) := by
  -- on the records that are left
  induction hn : stored.length - cursor using Nat.strongRecOn generalizing cursor log with
  | ind n ih =>
      have hlen : stored.length = events.length := hdec.length_eq
      rw [replayFrom]
      split
      · rename_i e he
        rw [hread] at he
        cases he
      · rename_i batch hb
        rw [hread, Except.ok.injEq] at hb
        split
        · -- nothing is left
          rename_i hnone
          rw [List.getLast?_eq_none_iff] at hnone
          rw [hnone, List.take_eq_nil_iff] at hb
          have hdrop : stored.drop cursor = [] := hb.resolve_left (Nat.succ_ne_zero 1023)
          rw [List.drop_eq_nil_iff, hlen] at hdrop
          rw [List.drop_eq_nil_of_le hdrop]
          rfl
        · rename_i last hlast
          have hbatch : batch.length = min replayBatch (stored.length - cursor) := by
            rw [← hb, List.length_take, List.length_drop]
          have hpos : 0 < batch.length :=
            List.length_pos_of_mem (List.mem_of_getLast? hlast)
          -- the next cursor is behind the batch
          have hnext : last.seq + 1 = cursor + batch.length := by
            rw [List.getLast?_eq_getElem?, List.getElem?_eq_some_iff] at hlast
            obtain ⟨hi, hlast⟩ := hlast
            have hlt : cursor + (batch.length - 1) < stored.length := by omega
            have hget : batch[batch.length - 1] = stored[cursor + (batch.length - 1)] := by
              simp only [← hb, List.getElem_take, List.getElem_drop]
            rw [← hlast, hget, hseq, Nat.add_assoc, Nat.sub_add_cancel hpos]
          have hfold := foldlM_replayRecord (List.forall₂_take batch.length
            (List.forall₂_drop cursor hdec)) log
          have htake : (stored.drop cursor).take batch.length = batch := by
            conv_rhs => rw [← hb]
            rw [List.take_eq_take_iff, hbatch, List.length_drop]
            omega
          rw [htake] at hfold
          refine except_bind_eq_ok.mpr ⟨_, hfold, ?_⟩
          rw [hnext, ih (stored.length - (cursor + batch.length)) (by omega) _ _ rfl,
            ← List.foldl_append, ← List.drop_drop, List.take_append_drop]

/-- A topology stream that holds the records of events replays to their log, and from a
position on to the log of the events from there. -/
theorem replayIntoEventLog_eq (hp : prims.RoundTrips) (hc : codec.RoundTrips)
    (hproj : proj.RoundTrips) {ledger : Ledger prims} {events : List (TemporalEvent V HE)}
    (h : Holds prims (store.volume .topology) ledger.frames)
    (hrec : List.Forall₂ (fun event record ↦ topologyRecord codec proj event = .ok record)
      events ledger.records) (fromSeq : Nat) :
    replayIntoEventLog prims codec proj store fromSeq =
      .ok (.ofEvents (events.drop fromSeq)) := by
  refine replayFrom_eq (Ledger.readFrom_eq hp h .topology) (fun i hi ↦ ?_) ?_ fromSeq .new
  · have hseq : (ledger.stored.map StoredRecord.seq)[i]? =
        (List.range' 0 ledger.entries.length)[i]? :=
      congrArg (fun l : List Nat ↦ l[i]?) (storedFrom_map_seq 0 none ledger.entries)
    have hi' : i < ledger.entries.length := ledger.length_stored ▸ hi
    rw [List.getElem?_eq_getElem (by rwa [List.length_map]), List.getElem_map,
      List.getElem?_eq_getElem (by rwa [List.length_range']), List.getElem_range',
      Option.some.injEq, Nat.zero_add, Nat.one_mul] at hseq
    exact hseq
  · rw [← Ledger.stored_map_record, List.forall₂_map_right_iff] at hrec
    exact hrec.flip.imp fun _ _ h ↦ decodeEvent_topologyRecord hc hproj h

end Koalisi.Persistence
