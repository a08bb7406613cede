import Koalisi.Persistence.Envelope
import Koalisi.Lib.HashChain
import Mathlib.Data.List.Nodup

/-!
# Frames and their hash chain

A record is stored as a CBOR-encoded `FrameV1`, which carries the digest of the
frame before it; a record's hash is SHA-256 over its exact frame bytes.  CBOR and
SHA-256 are code outside the repository, and enter as `Primitives`.  The only
law asked of them here is that decoding undoes encoding (`RoundTrips`); what a
result needs of the hash it says itself.
-/

namespace Koalisi.Persistence

open Koalisi.Lib.Framing (Bytes)
open Koalisi.Topology (U64)

/-- Current on-disk frame-format version. -/
def frameVersion : UInt16 := 1

/-- Payload of a frame. -/
inductive FramePayloadV1 where
  | plain (bytes : Bytes)
  | sealed (keyId : String) (nonce : Nonce) (ciphertext : Bytes)
deriving DecidableEq, Repr

/-- Private wire frame, primitives only. -/
structure FrameV1 where
  frameVersion : UInt16
  seq : Nat
  timestamp : U64
  schemaVersion : UInt16
  parents : List (UInt8 × Nat)
  prevHash : Option Digest
  payload : FramePayloadV1
deriving DecidableEq, Repr

/-- The external functions the chain rests on. -/
structure Primitives where
  /-- `ciborium::into_writer` on a frame. -/
  intoWriter : FrameV1 → Except String Bytes
  /-- `ciborium::from_reader` at a frame. -/
  fromReader : Bytes → Except String FrameV1
  sha256 : Bytes → Digest

/-- Decoding undoes encoding. -/
def Primitives.RoundTrips (prims : Primitives) : Prop :=
  ∀ frame bytes, prims.intoWriter frame = .ok bytes → prims.fromReader bytes = .ok frame

/-- SHA-256 over the exact frame bytes. -/
def hashFrame (prims : Primitives) (bytes : Bytes) : RecordHash where
  algorithm := .sha256
  digest := prims.sha256 bytes

/-- The payload as it is framed. -/
def Payload.toFrame : Payload → FramePayloadV1
  | .plain bytes => .plain bytes
  | .sealed keyId nonce ciphertext => .sealed keyId.id nonce ciphertext

/-- The payload in a frame. -/
def FramePayloadV1.toPayload : FramePayloadV1 → Payload
  | .plain bytes => .plain bytes
  | .sealed keyId nonce ciphertext => .sealed ⟨keyId⟩ nonce ciphertext

/-- The frame of a record. -/
def FrameV1.ofRecord (record : Record) (seq : SequenceNo) (prevHash : Option RecordHash) :
    FrameV1 where
  frameVersion := Persistence.frameVersion
  seq := seq
  timestamp := record.timestamp
  schemaVersion := record.schemaVersion
  parents := record.parents.map fun p ↦ (p.stream.toU8, p.seq)
  prevHash := prevHash.map RecordHash.digest
  payload := record.payload.toFrame

/-- Encode a record into its stored frame bytes, without the length prefix. -/
def encodeFrame (prims : Primitives) (record : Record) (seq : SequenceNo)
    (prevHash : Option RecordHash) : Except PersistenceError Bytes :=
  (prims.intoWriter (FrameV1.ofRecord record seq prevHash)).mapError .encode

/-- Look up the stream of one parent reference. -/
def decodeParent (stream : StreamId) (seq : SequenceNo) (parent : UInt8 × Nat) :
    Except PersistenceError EventRef :=
  match StreamId.fromU8 parent.1 with
  | some pstream => .ok ⟨pstream, parent.2⟩
  | none => .error (.decode stream seq s!"unknown parent stream byte {parent.1}")

/-- Decode stored frame bytes back into a record; `seq` is the store-known position,
cross-checked against the frame's own. -/
def decodeFrame (prims : Primitives) (bytes : Bytes) (stream : StreamId) (seq : SequenceNo) :
    Except PersistenceError StoredRecord := do
  let frame ← (prims.fromReader bytes).mapError fun e ↦ .decode stream seq e
  if frame.frameVersion ≠ frameVersion then
    .error (.schemaVersionUnsupported frame.frameVersion frameVersion)
  else if frame.seq ≠ seq then
    .error (.decode stream seq s!"frame seq {frame.seq} does not match expected {seq}")
  else do
    let parents ← frame.parents.mapM (decodeParent stream seq)
    return {
      seq := seq
      prevHash := frame.prevHash.map (RecordHash.mk .sha256)
      hash := hashFrame prims bytes
      record := {
        timestamp := frame.timestamp
        schemaVersion := frame.schemaVersion
        parents := parents
        payload := frame.payload.toPayload } }

/-- The back-pointer in stored frame bytes. -/
def frameLink (prims : Primitives) (bytes : Bytes) : Option RecordHash :=
  match prims.fromReader bytes with
  | .ok frame => frame.prevHash.map (RecordHash.mk .sha256)
  | .error _ => none

/-- Check that a record's back-pointer is the hash of its predecessor, `none` for a
stream's first record.  On a mismatch the predecessor is the record reported. -/
def checkBackLink (stream : StreamId) (record : StoredRecord)
    (predecessorHash : Option RecordHash) : Except PersistenceError Unit :=
  if record.prevHash = predecessorHash then .ok ()
  else .error (.chainBroken stream (record.seq - 1))

/-! ## What decoding returns -/

variable {prims : Primitives}

@[simp] theorem toPayload_toFrame (payload : Payload) : payload.toFrame.toPayload = payload := by
  cases payload <;> rfl

theorem checkBackLink_eq_ok {stream : StreamId} {record : StoredRecord}
    {prev : Option RecordHash} :
    checkBackLink stream record prev = .ok () ↔ record.prevHash = prev := by
  unfold checkBackLink
  split
  · rename_i h
    exact iff_of_true rfl h
  · rename_i h
    exact iff_of_false (fun h' ↦ nomatch h') h

/-- Parent references survive encoding. -/
theorem mapM_decodeParent (stream : StreamId) (seq : SequenceNo) (parents : List EventRef) :
    (parents.map fun p ↦ (p.stream.toU8, p.seq)).mapM (decodeParent stream seq) =
      .ok parents := by
  induction parents with
  | nil => rfl
  | cons p ps ih =>
      rw [List.map_cons, List.mapM_cons, decodeParent, StreamId.fromU8_toU8, ih]
      rfl

/-- An encoded record decodes to itself, with the fields the store assigned. -/
theorem decodeFrame_encodeFrame (hp : prims.RoundTrips) {record : Record} {seq : SequenceNo}
    {prev : Option RecordHash} {bytes : Bytes}
    (h : encodeFrame prims record seq prev = .ok bytes) (stream : StreamId) :
    decodeFrame prims bytes stream seq = .ok ⟨seq, prev, hashFrame prims bytes, record⟩ := by
  have hw : prims.intoWriter (FrameV1.ofRecord record seq prev) = .ok bytes := by
    unfold encodeFrame at h
    cases hi : prims.intoWriter (FrameV1.ofRecord record seq prev) with
    | ok b =>
        rw [hi] at h
        cases h
        rfl
    | error e =>
        rw [hi] at h
        cases h
  have hprev : (prev.map RecordHash.digest).map (RecordHash.mk .sha256) = prev := by
    rcases prev with - | ⟨⟨⟩, d⟩ <;> rfl
  simp only [decodeFrame, hp _ _ hw, Except.mapError, bind, Except.bind, FrameV1.ofRecord, ne_eq,
    not_true_eq_false, if_false, mapM_decodeParent, hprev, toPayload_toFrame]
  rfl

/-- Whatever decodes carries the position it was read at, the hash of its bytes and the
back-pointer in them. -/
theorem decodeFrame_ok {bytes : Bytes} {stream : StreamId} {seq : SequenceNo}
    {stored : StoredRecord} (h : decodeFrame prims bytes stream seq = .ok stored) :
    stored.seq = seq ∧ stored.hash = hashFrame prims bytes ∧
      stored.prevHash = frameLink prims bytes := by
  unfold decodeFrame at h
  unfold frameLink
  cases hf : prims.fromReader bytes with
  | error e =>
      rw [hf] at h
      cases h
  | ok frame =>
      rw [hf] at h
      dsimp only
      change (if frame.frameVersion ≠ frameVersion then _ else if frame.seq ≠ seq then _ else
        Except.bind (frame.parents.mapM (decodeParent stream seq)) _) = _ at h
      split at h
      · cases h
      split at h
      · cases h
      cases hm : frame.parents.mapM (decodeParent stream seq) with
      | error e =>
          rw [hm] at h
          cases h
      | ok parents =>
          rw [hm] at h
          cases h
          exact ⟨rfl, rfl, rfl⟩

/-! ## Codecs given by a table -/

section Table

variable {α : Type} [DecidableEq α]

/-- Encode what is in a table. -/
def tableWrite (table : List (α × Bytes)) (a : α) : Except String Bytes :=
  match table.find? (·.1 = a) with
  | some entry => .ok entry.2
  | none => .error "not in the table"

/-- Decode what is in a table. -/
def tableRead (table : List (α × Bytes)) (bytes : Bytes) : Except String α :=
  match table.find? (·.2 = bytes) with
  | some entry => .ok entry.1
  | none => .error "not in the table"

/-- A table with an encoding of its own for each entry round-trips. -/
theorem tableRead_tableWrite {table : List (α × Bytes)} (h : (table.map Prod.snd).Nodup) {a : α}
    {bytes : Bytes} (hw : tableWrite table a = .ok bytes) : tableRead table bytes = .ok a := by
  unfold tableWrite at hw
  cases hfind : table.find? (·.1 = a) with
  | none =>
      rw [hfind] at hw
      cases hw
  | some entry =>
      rw [hfind] at hw
      cases hw
      have hmem : entry ∈ table := List.mem_of_find?_eq_some hfind
      have hkey : entry.1 = a := by simpa using List.find?_some hfind
      have hback : table.find? (·.2 = entry.2) = some entry := by
        obtain ⟨found, hfound⟩ := Option.isSome_iff_exists.mp
          (List.find?_isSome.mpr ⟨entry, hmem, decide_eq_true rfl⟩ :
            (table.find? (·.2 = entry.2)).isSome)
        have hval : found.2 = entry.2 := by simpa using List.find?_some hfound
        rw [hfound, List.inj_on_of_nodup_map h (List.mem_of_find?_eq_some hfound) hmem hval]
      unfold tableRead
      rw [hback, ← hkey]

end Table

/-- The primitives that know the frames of a table and the digests of another. -/
def Primitives.ofTable (table : List (FrameV1 × Bytes)) (digests : List (Bytes × Digest))
    (unknown : Digest) : Primitives where
  intoWriter := tableWrite table
  fromReader := tableRead table
  sha256 bytes := (digests.lookup bytes).getD unknown

theorem Primitives.ofTable_roundTrips {table : List (FrameV1 × Bytes)}
    (h : (table.map Prod.snd).Nodup) (digests : List (Bytes × Digest)) (unknown : Digest) :
    (ofTable table digests unknown).RoundTrips :=
  fun _ _ hw ↦ tableRead_tableWrite h hw

/-! ## Two records of a topology stream

The addition of a vertex of weight 5 at timestamp 0 and of one of weight 7 at
timestamp 1, as they are encoded and hashed, and the first of them again with
another weight. -/

namespace Sample

/-- CBOR of the addition of a vertex. -/
def payload (timestamp index weight : UInt8) : Bytes :=
  [161, 107, 86, 101, 114, 116, 101, 120, 65, 100, 100, 101, 100, 163, 105, 116, 105, 109, 101,
    115, 116, 97, 109, 112, timestamp, 101, 105, 110, 100, 101, 120, index, 102, 119, 101, 105,
    103, 104, 116, weight]

/-- CBOR of a string of 24 to 255 bytes, as an array of integers. -/
def cborBytes (bytes : Bytes) : Bytes :=
  [152, UInt8.ofNat bytes.length] ++ bytes.flatMap fun b ↦ if b < 24 then [b] else [24, b]

/-- CBOR of a frame without parents, `prevHash` being encoded already. -/
def frame (seq timestamp : UInt8) (prevHash payload : Bytes) : Bytes :=
  [167, 109, 102, 114, 97, 109, 101, 95, 118, 101, 114, 115, 105, 111, 110, 1, 99, 115, 101, 113,
    seq, 105, 116, 105, 109, 101, 115, 116, 97, 109, 112, timestamp, 110, 115, 99, 104, 101, 109,
    97, 95, 118, 101, 114, 115, 105, 111, 110, 1, 103, 112, 97, 114, 101, 110, 116, 115, 128, 105,
    112, 114, 101, 118, 95, 104, 97, 115, 104] ++ prevHash ++
  [103, 112, 97, 121, 108, 111, 97, 100, 161, 101, 80, 108, 97, 105, 110] ++ cborBytes payload

/-- A record of the topology stream. -/
def record (timestamp : U64) (payload : Bytes) : Record where
  timestamp := timestamp
  schemaVersion := 1
  parents := []
  payload := .plain payload

def firstRecord : Record := record 0 (payload 0 0 5)

def secondRecord : Record := record 1 (payload 1 1 7)

/-- The first record with another weight. -/
def forgedRecord : Record := record 0 (payload 0 0 6)

def firstDigest : Digest where
  bytes := [91, 234, 120, 34, 196, 81, 91, 85, 58, 181, 141, 182, 189, 167, 217, 127, 104, 28, 199,
    191, 162, 239, 135, 217, 220, 225, 254, 92, 198, 123, 41, 79]
  size := rfl

def secondDigest : Digest where
  bytes := [45, 31, 206, 216, 156, 4, 166, 24, 239, 132, 164, 171, 198, 223, 82, 129, 131, 199, 213,
    25, 44, 131, 102, 58, 28, 105, 179, 40, 200, 169, 70, 86]
  size := rfl

def forgedDigest : Digest where
  bytes := [200, 42, 28, 130, 184, 44, 219, 93, 63, 181, 103, 248, 44, 64, 80, 74, 109, 158, 173,
    98, 183, 228, 42, 110, 32, 124, 78, 63, 181, 136, 104, 88]
  size := rfl

def firstFrame : Bytes := frame 0 0 [246] (payload 0 0 5)

def secondFrame : Bytes := frame 1 1 (cborBytes firstDigest.bytes) (payload 1 1 7)

def forgedFrame : Bytes := frame 0 0 [246] (payload 0 0 6)

/-- What bytes outside the table hash to. -/
def zeroDigest : Digest := ⟨List.replicate 32 0, rfl⟩

/-- CBOR and SHA-256 on the frames above. -/
def codec : Primitives := .ofTable
  [(.ofRecord firstRecord 0 none, firstFrame),
    (.ofRecord secondRecord 1 (some ⟨.sha256, firstDigest⟩), secondFrame),
    (.ofRecord forgedRecord 0 none, forgedFrame)]
  [(firstFrame, firstDigest), (secondFrame, secondDigest), (forgedFrame, forgedDigest)]
  zeroDigest

theorem roundTrips : codec.RoundTrips := Primitives.ofTable_roundTrips (by decide +kernel) _ _

/-- The frames have distinct digests. -/
theorem injOn_sha256 :
    Set.InjOn codec.sha256 {bytes | bytes ∈ [firstFrame, secondFrame, forgedFrame]} := by
  have h : ∀ a ∈ [firstFrame, secondFrame, forgedFrame],
      ∀ b ∈ [firstFrame, secondFrame, forgedFrame], codec.sha256 a = codec.sha256 b → a = b := by
    decide +kernel
  exact fun a ha b hb hab ↦ h a ha b hb hab

end Sample

end Koalisi.Persistence
