import Koalisi.Lib.Framing
import Koalisi.Topology.Timestamp

/-!
# Envelope types of the persistence layer

What a producer hands to the store, what it reads back, and the errors in
between.  A store holds six logical streams, each with a hash chain and an
on-disk directory of its own.  The byte mapping and the directory names are
load-bearing: the bytes are written into frames and index the store's array of
stream states, and the names keep the streams apart on disk.

A sequence number is a `u64` counting the records of one stream; the model takes
it from `Nat`, since no stream comes near `2 ^ 64` records.
-/

namespace Koalisi.Persistence

open Koalisi.Lib.Framing (Bytes)
open Koalisi.Topology (U64)

/-- Logical stream within the store. -/
inductive StreamId where
  | topology
  | decisions
  | beliefs
  | lineage
  | registry
  | provenance
deriving DecidableEq, Repr

namespace StreamId

/-- Every stream, in stable byte order. -/
def all : List StreamId := [topology, decisions, beliefs, lineage, registry, provenance]

/-- The stable on-wire byte for this stream. -/
def toU8 : StreamId → UInt8
  | topology => 0
  | decisions => 1
  | beliefs => 2
  | lineage => 3
  | registry => 4
  | provenance => 5

/-- Inverse of `toU8`; `none` for an unknown byte. -/
def fromU8 (byte : UInt8) : Option StreamId :=
  if byte = 0 then some topology
  else if byte = 1 then some decisions
  else if byte = 2 then some beliefs
  else if byte = 3 then some lineage
  else if byte = 4 then some registry
  else if byte = 5 then some provenance
  else none

/-- Subdirectory name for this stream under the store root. -/
def asDirName : StreamId → String
  | topology => "topology"
  | decisions => "decisions"
  | beliefs => "beliefs"
  | lineage => "lineage"
  | registry => "registry"
  | provenance => "provenance"

@[simp] theorem fromU8_toU8 (stream : StreamId) : fromU8 stream.toU8 = some stream := by
  cases stream <;> rfl

/-- The array of stream states is built in the order of `all` and indexed by
`toU8`: every stream finds its own state there. -/
theorem all_getElem?_toU8 (stream : StreamId) : all[stream.toU8.toNat]? = some stream := by
  cases stream <;> rfl

theorem mem_all (stream : StreamId) : stream ∈ all := by
  cases stream <;> decide

theorem nodup_all : all.Nodup := by decide

/-- No two streams share a directory. -/
theorem asDirName_injective : Function.Injective asDirName := by
  intro a b h
  cases a <;> cases b <;> first | rfl | exact absurd h (by decide)

end StreamId

/-- Per-stream dense monotonic cursor. -/
abbrev SequenceNo := Nat

/-- A SHA-256 digest. -/
structure Digest where
  bytes : Bytes
  size : bytes.length = 32
deriving DecidableEq, Repr

/-- A 24-byte AEAD nonce. -/
structure Nonce where
  bytes : Bytes
  size : bytes.length = 24
deriving DecidableEq, Repr

/-- Algorithm tag on the in-memory record hash. -/
inductive HashAlgorithm where
  | sha256
deriving DecidableEq, Repr

/-- Algorithm-tagged digest over the exact stored frame bytes. -/
structure RecordHash where
  algorithm : HashAlgorithm
  digest : Digest
deriving DecidableEq, Repr

/-- Opaque handle into the key registry. -/
structure KeyId where
  id : String
deriving DecidableEq, Repr

/-- Payload as it enters the store. -/
inductive Payload where
  | plain (bytes : Bytes)
  | sealed (keyId : KeyId) (nonce : Nonce) (ciphertext : Bytes)
deriving DecidableEq, Repr

/-- Causal parent reference. -/
structure EventRef where
  stream : StreamId
  seq : SequenceNo
deriving DecidableEq, Repr

/-- What a producer hands to the store. -/
structure Record where
  timestamp : U64
  schemaVersion : UInt16
  parents : List EventRef
  payload : Payload
deriving DecidableEq, Repr

/-- A record as read back, with the envelope fields the store assigned. -/
structure StoredRecord where
  seq : SequenceNo
  prevHash : Option RecordHash
  hash : RecordHash
  record : Record
deriving DecidableEq, Repr

/-- Sequence number and digest of the last record of a stream. -/
structure StreamHead where
  seq : SequenceNo
  hash : RecordHash
deriving DecidableEq, Repr

/-- An error of the file system or of the operating system. -/
inductive IoError where
  | notFound
  | unexpectedEof
  | other (message : String)
deriving DecidableEq, Repr

/-- What can go wrong in the persistence layer. -/
inductive PersistenceError where
  /-- An underlying I/O error. -/
  | io (e : IoError)
  /-- A frame could not be encoded. -/
  | encode (message : String)
  /-- A stored frame could not be decoded back into a record. -/
  | decode (stream : StreamId) (seq : SequenceNo) (message : String)
  /-- The record at `seq` no longer hashes to what its successor recorded. -/
  | chainBroken (stream : StreamId) (seq : SequenceNo)
  /-- A frame declared a format version this build cannot read. -/
  | schemaVersionUnsupported (found maxSupported : UInt16)
  /-- An operation that requires records ran against an empty stream. -/
  | streamEmpty (stream : StreamId)
  /-- The stream refuses appends after a failed write. -/
  | streamWedged (stream : StreamId)
deriving DecidableEq, Repr

end Koalisi.Persistence
