import Koalisi.Persistence.Refinement
import Koalisi.Subsystems.Durable

/-!
# Decisions that are read back

A decision trace becomes a record of the decisions stream: its decision is the payload, its position
is the parent, which is a record of the topology stream unless nothing was recorded yet.  The record
becomes a frame, and the frame goes to a segment file.

All of this can be undone.  A wire decision converts back exactly if it is one that a decision was
projected to (`tryIntoRecord_iff`), the parents of a record give the position, and the store gives
back what was appended to it.  So whatever else is appended in between, and however often the store
is opened again, the decisions stream reads back as the traces that were logged
(`decisions_are_recalled`).
-/

namespace Koalisi.Persistence

open Koalisi.Lib.Fallible
open Koalisi.Lib.Framing (Bytes)
open Koalisi.Topology Koalisi.Subsystems

variable {Score : Type}

/-! ## Back from the wire -/

/-- The kind of decision that a label stands for. -/
def WireDecision.kindOf : String → Except WireConversionError DecisionKind
  | "join" => .ok .join
  | "leave" => .ok .leave
  | other => .error ⟨"unknown decision kind " ++ other.quote⟩

/-- Reconstruct a decision record from its mirror. -/
def WireDecision.tryIntoRecord (wire : WireDecision Score) :
    Except WireConversionError (DecisionRecord Score) := do
  let kind ← kindOf wire.kind
  return {
    coalition := wire.coalition
    agentId := wire.agentId
    kind := kind
    act := wire.act
    score := wire.score }

theorem kindOf_cases (label : String) :
    (∃ kind : DecisionKind, label = kind.asStr ∧ WireDecision.kindOf label = .ok kind) ∨
      (label ≠ "join" ∧ label ≠ "leave" ∧
        WireDecision.kindOf label = .error ⟨"unknown decision kind " ++ label.quote⟩) := by
  unfold WireDecision.kindOf
  split
  · exact Or.inl ⟨.join, rfl, rfl⟩
  · exact Or.inl ⟨.leave, rfl, rfl⟩
  · next hjoin hleave => exact Or.inr ⟨hjoin, hleave, rfl⟩

/-- A mirror converts back if it is one, and to what it mirrors. -/
theorem tryIntoRecord_iff {wire : WireDecision Score} {record : DecisionRecord Score} :
    wire.tryIntoRecord = .ok record ↔ wire = .fromRecord record := by
  constructor
  · intro h
    obtain ⟨coalition, agentId, label, act, score⟩ := wire
    obtain ⟨kind, hkind, hrecord⟩ := except_bind_eq_ok.mp h
    rw [← Except.ok.inj hrecord]
    rcases kindOf_cases label with ⟨kind', rfl, hok⟩ | ⟨-, -, herror⟩
    · obtain rfl := Except.ok.inj (hok.symm.trans hkind)
      rfl
    · cases herror.symm.trans hkind
  · rintro rfl
    obtain ⟨coalition, agentId, kind, act, score⟩ := record
    cases kind with
    | join => rfl
    | leave => rfl

/-- What does not convert back is of neither kind, and the message says which it is of. -/
theorem tryIntoRecord_error {wire : WireDecision Score} {e : WireConversionError}
    (h : wire.tryIntoRecord = .error e) :
    wire.kind ≠ "join" ∧ wire.kind ≠ "leave" ∧
      e.message = "unknown decision kind " ++ wire.kind.quote := by
  unfold WireDecision.tryIntoRecord at h
  rcases kindOf_cases wire.kind with ⟨kind, -, hok⟩ | ⟨hjoin, hleave, herror⟩
  · rw [hok] at h
    cases h
  · rw [herror] at h
    cases h
    exact ⟨hjoin, hleave, rfl⟩

/-! ## Back from the store -/

/-- The position that the parents of a decision's record stand for. -/
def positionOf : List EventRef → Nat
  | [⟨.topology, seq⟩] => seq + 1
  | _ => 0

/-- What a record of the decisions stream says: the decision, the position and the time. -/
structure Recalled (Score : Type) where
  record : DecisionRecord Score
  eventLogLen : Nat
  timestamp : U64

/-- Read a trace off its record; `fromReader` is the decoder of the payload. -/
def recallTrace (fromReader : Bytes → Except String (WireDecision Score)) (stored : StoredRecord) :
    Except String (Recalled Score) :=
  match stored.record.payload with
  | .sealed _ _ _ => .error "expected a Plain payload"
  | .plain bytes => do
      let wire ← fromReader bytes
      let record ← wire.tryIntoRecord.mapError WireConversionError.message
      return ⟨record, positionOf stored.record.parents, stored.record.timestamp⟩

/-- What there is to a trace. -/
def Recalled.ofTrace (trace : DecisionTrace Score) : Recalled Score :=
  ⟨trace.record, trace.eventLogLen.val, trace.timestamp⟩

/-- Decoding undoes encoding. -/
def Decodes (codec : DecisionCodec Score)
    (fromReader : Bytes → Except String (WireDecision Score)) : Prop :=
  ∀ wire bytes, codec wire = .ok bytes → fromReader bytes = .ok wire

section Recall

variable {codec : DecisionCodec Score} {fromReader : Bytes → Except String (WireDecision Score)}

/-- The record of a trace says what there is to it. -/
theorem recallTrace_eq (hc : Decodes codec fromReader) {trace : DecisionTrace Score}
    {stored : StoredRecord} (h : decisionStoreRecord codec trace = .ok stored.record) :
    recallTrace fromReader stored = .ok (.ofTrace trace) := by
  have hparents := parents_of_decisionStoreRecord h
  obtain ⟨buf, hbuf, hrecord⟩ := except_bind_eq_ok.mp h
  have hwrite : codec (.fromRecord trace.record) = .ok buf := by
    cases hcodec : codec (.fromRecord trace.record) with
    | error e =>
        rw [hcodec] at hbuf
        cases hbuf
    | ok bytes =>
        rw [hcodec] at hbuf
        cases hbuf
        rfl
  have hposition : positionOf stored.record.parents = trace.eventLogLen.val := by
    rw [hparents]
    split
    · next hzero => exact hzero.symm
    · next hne => exact Nat.succ_pred_eq_of_ne_zero hne
  have htimestamp : stored.record.timestamp = trace.timestamp := by
    rw [← Except.ok.inj hrecord]
  have hpayload : stored.record.payload = .plain buf := by
    rw [← Except.ok.inj hrecord]
  unfold recallTrace
  rw [hpayload]
  refine except_bind_eq_ok.mpr ⟨.fromRecord trace.record, hc _ _ hwrite, ?_⟩
  refine except_bind_eq_ok.mpr ⟨trace.record, ?_, ?_⟩
  · rw [tryIntoRecord_iff.mpr rfl, Except.mapError]
  · rw [hposition, htimestamp]
    rfl

/-- A list of stored records reads back as the traces they are of. -/
theorem mapM_recallTrace (hc : Decodes codec fromReader) {traces : List (DecisionTrace Score)}
    {stored : List StoredRecord}
    (h : List.Forall₂ (fun trace s ↦ recordOf codec trace = some s.record) traces stored) :
    stored.mapM (recallTrace fromReader) = .ok (traces.map .ofTrace) := by
  induction h with
  | nil => rfl
  | @cons trace s traces stored hrecord _ ih =>
      have hok : decisionStoreRecord codec trace = .ok s.record := by
        rw [recordOf] at hrecord
        cases hstore : decisionStoreRecord codec trace with
        | error e =>
            rw [hstore] at hrecord
            cases hrecord
        | ok record =>
            rw [hstore] at hrecord
            exact congrArg Except.ok (Option.some.inj hrecord)
      rw [List.mapM_cons, recallTrace_eq hc hok]
      change (do let rest ← stored.mapM (recallTrace fromReader); pure (_ :: rest)) = _
      rw [ih]
      rfl

/-- Traces without a record are not in the stream; the others are, one after the other. -/
theorem forall₂_recordOf {traces : List (DecisionTrace Score)} {stored : List StoredRecord}
    (h : stored.map StoredRecord.record = traces.filterMap (recordOf codec)) :
    List.Forall₂ (fun trace s ↦ recordOf codec trace = some s.record)
      (traces.filter fun trace ↦ (recordOf codec trace).isSome) stored := by
  induction traces generalizing stored with
  | nil =>
      rw [List.filterMap_nil, List.map_eq_nil_iff] at h
      subst h
      exact .nil
  | cons trace traces ih =>
      cases hrecord : recordOf codec trace with
      | none =>
          rw [List.filterMap_cons_none hrecord] at h
          rw [List.filter_cons_of_neg (by rw [hrecord]; exact Bool.false_ne_true)]
          exact ih h
      | some record =>
          rw [List.filterMap_cons_some hrecord] at h
          rw [List.filter_cons_of_pos (by rw [hrecord]; rfl)]
          obtain ⟨s, stored, rfl, hs, hrest⟩ := List.map_eq_cons_iff.mp h
          refine .cons ?_ (ih hrest)
          rw [hs]
          exact hrecord

end Recall

/-- **Decisions are recalled.** -/
theorem decisions_are_recalled {prims : Primitives} (hp : prims.RoundTrips)
    {codec : DecisionCodec Score} {fromReader : Bytes → Except String (WireDecision Score)}
    (hc : Decodes codec fromReader) (config : FileStoreConfig) (ops : List Op)
    (traces : List (DecisionTrace Score))
    (happended : appendedTo .decisions ops (Ledgers.run ops (Ledgers.empty prims)).1 =
      traces.filterMap (recordOf codec)) :
    ∃ responses store, FileEventStore.session prims config ops = some (responses, store) ∧
      ∀ fromSeq limit, ∃ stored,
        store.readFrom prims .decisions fromSeq limit = .ok stored ∧
          stored.mapM (recallTrace fromReader) =
            .ok ((((traces.filter fun trace ↦ (recordOf codec trace).isSome).drop fromSeq).take
              limit).map .ofTrace) := by
  obtain ⟨store, hsession, hkeeps⟩ := exists_session hp config ops
  refine ⟨_, store, hsession, fun fromSeq limit ↦
    ⟨_, (hkeeps.shows hp).readFrom .decisions fromSeq limit, ?_⟩⟩
  have hrecords : ((Ledgers.run ops (Ledgers.empty prims)).2 .decisions).stored.map
      StoredRecord.record = traces.filterMap (recordOf codec) := by
    rw [Ledger.stored_map_record, Ledgers.records_run, happended]
    rfl
  exact mapM_recallTrace hc
    (List.forall₂_take limit (List.forall₂_drop fromSeq (forall₂_recordOf hrecords)))

namespace Sample

/-- The trace of a join before anything was recorded. -/
def earlyJoin : DecisionTrace Nat where
  record := ⟨"coalition-0", 1, .join, true, 1⟩
  eventLogLen := 0
  timestamp := 0

def joinFrame : Bytes := frame 0 0 [246] joinBytes

def joinDigest : Digest where
  bytes := [108, 28, 128, 207, 159, 232, 62, 104, 75, 152, 89, 92, 184, 2, 180, 24, 142, 77, 138,
    62, 236, 251, 194, 75, 158, 150, 69, 205, 177, 248, 231, 225]
  size := rfl

/-- CBOR and SHA-256 on the frame of the join. -/
def joinPrimitives : Primitives := .ofTable
  [(.ofRecord (record 0 joinBytes) 0 none, joinFrame)] [(joinFrame, joinDigest)] zeroDigest

/-- CBOR on the two decisions, the other way. -/
def decisionReader : Bytes → Except String (WireDecision Nat) := tableRead
  [(⟨"coalition-0", 1, "join", true, 1⟩, joinBytes),
    (⟨"coalition-0", 5, "leave", false, 0⟩, stayBytes)]

end Sample

/-- A join is logged, the store opened again, and the join is read back. -/
theorem a_join_is_recalled :
    ∃ responses store, FileEventStore.session Sample.joinPrimitives ⟨1⟩
        [.append .decisions (Sample.record 0 Sample.joinBytes), .reopen ⟨0⟩] =
          some (responses, store) ∧
      ∃ stored, store.readFrom Sample.joinPrimitives .decisions 0 5 = .ok stored ∧
        stored.mapM (recallTrace Sample.decisionReader) = .ok [.ofTrace Sample.earlyJoin] := by
  have hrecord : [Sample.earlyJoin].filterMap (recordOf Sample.decisionCodec) =
      [Sample.record 0 Sample.joinBytes] := by decide +kernel
  have happended : appendedTo .decisions
      [.append .decisions (Sample.record 0 Sample.joinBytes), .reopen ⟨0⟩]
      (Ledgers.run [.append .decisions (Sample.record 0 Sample.joinBytes), .reopen ⟨0⟩]
        (Ledgers.empty Sample.joinPrimitives)).1 =
      [Sample.earlyJoin].filterMap (recordOf Sample.decisionCodec) := by
    rw [hrecord]
    decide +kernel
  obtain ⟨responses, store, hsession, hread⟩ := decisions_are_recalled
    (Primitives.ofTable_roundTrips (by decide +kernel) _ _)
    (fun _ _ hw ↦ tableRead_tableWrite (by decide +kernel) hw) ⟨1⟩ _ [Sample.earlyJoin] happended
  exact ⟨responses, store, hsession, hread 0 5⟩

end Koalisi.Persistence
