import Koalisi.Lib.Fallible
import Koalisi.Lib.Framing
import Koalisi.Topology.Events

/-!
# Wire form of topology events

What is persisted of an event is its mirror `WireTopologyEvent`: timestamps,
indices and counts as raw numbers, and the weights as projections chosen by the
caller, which convert back with possible failure.  The mirror of an event
converts back to the event (`tryIntoEvent_fromEvent`), whichever of the thirteen
kinds it is, provided the projections do.

A `u64` always fits a `usize` of 64 bits, so raw indices and counts convert back
without a check here.
-/

namespace Koalisi.Persistence

open Koalisi.Lib.Framing (Bytes)
open Koalisi.Lib.Fallible
open Koalisi.Topology

/-- Wire-schema version of the topology stream's payload. -/
def wireTopologySchemaVersion : UInt16 := 1

/-- Mirror of an event, over projections of its weights. -/
inductive WireTopologyEvent (VW HW : Type) where
  | vertexAdded (timestamp : U64) (index : Nat) (weight : VW)
  | vertexRemoved (timestamp : U64) (index : Nat) (weight : VW)
  | vertexWeightUpdated (timestamp : U64) (index : Nat) (oldWeight newWeight : VW)
  | hyperedgeAdded (timestamp : U64) (index : Nat) (vertices : List Nat) (weight : HW)
  | hyperedgeRemoved (timestamp : U64) (index : Nat) (vertices : List Nat) (weight : HW)
  | hyperedgeWeightUpdated (timestamp : U64) (index : Nat) (oldWeight newWeight : HW)
  | hyperedgeVerticesUpdated (timestamp : U64) (index : Nat) (oldVertices newVertices : List Nat)
  | hyperedgeReversed (timestamp : U64) (index : Nat) (oldVertices newVertices : List Nat)
  | hyperedgesJoined (timestamp : U64) (targetIndex : Nat) (sourceIndices : List Nat)
      (newVertices : List Nat)
  | verticesContracted (timestamp : U64) (hyperedgeIndex : Nat) (contractedVertices : List Nat)
      (targetVertex : Nat) (oldVertices newVertices : List Nat)
  | hyperedgesCleared (timestamp : U64) (count : Nat)
  | graphCleared (timestamp : U64) (vertexCount hyperedgeCount : Nat)
  | snapshotMarker (timestamp : U64) (snapshotId : U64)
deriving DecidableEq, Repr

/-- A projection failed to convert back. -/
structure WireConversionError where
  message : String
deriving DecidableEq, Repr

/-- The conversions `Into` and `TryInto` between weights and their projections; the error
of a failed one is displayed. -/
structure Projections (V HE VW HW : Type) where
  vertexInto : V → VW
  hyperedgeInto : HE → HW
  vertexTryInto : VW → Except String V
  hyperedgeTryInto : HW → Except String HE

/-- Converting back undoes the projection. -/
structure Projections.RoundTrips {V HE VW HW : Type} (proj : Projections V HE VW HW) : Prop where
  vertex : ∀ weight, proj.vertexTryInto (proj.vertexInto weight) = .ok weight
  hyperedge : ∀ weight, proj.hyperedgeTryInto (proj.hyperedgeInto weight) = .ok weight

/-- The weights themselves. -/
def Projections.identity (V HE : Type) : Projections V HE V HE where
  vertexInto := id
  hyperedgeInto := id
  vertexTryInto := .ok
  hyperedgeTryInto := .ok

theorem Projections.identity_roundTrips (V HE : Type) : (identity V HE).RoundTrips :=
  ⟨fun _ ↦ rfl, fun _ ↦ rfl⟩

variable {V HE VW HW : Type}

namespace WireTopologyEvent

/-- Project an event onto its mirror. -/
def fromEvent (proj : Projections V HE VW HW) : TemporalEvent V HE → WireTopologyEvent VW HW
  | .vertexAdded timestamp index weight =>
      .vertexAdded timestamp index (proj.vertexInto weight)
  | .vertexRemoved timestamp index weight =>
      .vertexRemoved timestamp index (proj.vertexInto weight)
  | .vertexWeightUpdated timestamp index oldWeight newWeight =>
      .vertexWeightUpdated timestamp index (proj.vertexInto oldWeight) (proj.vertexInto newWeight)
  | .hyperedgeAdded timestamp index vertices weight =>
      .hyperedgeAdded timestamp index vertices (proj.hyperedgeInto weight)
  | .hyperedgeRemoved timestamp index vertices weight =>
      .hyperedgeRemoved timestamp index vertices (proj.hyperedgeInto weight)
  | .hyperedgeWeightUpdated timestamp index oldWeight newWeight =>
      .hyperedgeWeightUpdated timestamp index (proj.hyperedgeInto oldWeight)
        (proj.hyperedgeInto newWeight)
  | .hyperedgeVerticesUpdated timestamp index oldVertices newVertices =>
      .hyperedgeVerticesUpdated timestamp index oldVertices newVertices
  | .hyperedgeReversed timestamp index oldVertices newVertices =>
      .hyperedgeReversed timestamp index oldVertices newVertices
  | .hyperedgesJoined timestamp targetIndex sourceIndices newVertices =>
      .hyperedgesJoined timestamp targetIndex sourceIndices newVertices
  | .verticesContracted timestamp hyperedgeIndex contractedVertices targetVertex oldVertices
      newVertices =>
      .verticesContracted timestamp hyperedgeIndex contractedVertices targetVertex oldVertices
        newVertices
  | .hyperedgesCleared timestamp count => .hyperedgesCleared timestamp count
  | .graphCleared timestamp vertexCount hyperedgeCount =>
      .graphCleared timestamp vertexCount hyperedgeCount
  | .snapshotMarker timestamp snapshotId => .snapshotMarker timestamp snapshotId

/-- Convert a vertex weight back. -/
def vWeight (proj : Projections V HE VW HW) (weight : VW) : Except WireConversionError V :=
  (proj.vertexTryInto weight).mapError fun e ↦ ⟨s!"vertex weight: {e}"⟩

/-- Convert a hyperedge weight back. -/
def heWeight (proj : Projections V HE VW HW) (weight : HW) : Except WireConversionError HE :=
  (proj.hyperedgeTryInto weight).mapError fun e ↦ ⟨s!"hyperedge weight: {e}"⟩

/-- Reconstruct an event from its mirror. -/
def tryIntoEvent (proj : Projections V HE VW HW) :
    WireTopologyEvent VW HW → Except WireConversionError (TemporalEvent V HE)
  | .vertexAdded timestamp index weight =>
      return .vertexAdded timestamp index (← vWeight proj weight)
  | .vertexRemoved timestamp index weight =>
      return .vertexRemoved timestamp index (← vWeight proj weight)
  | .vertexWeightUpdated timestamp index oldWeight newWeight =>
      return .vertexWeightUpdated timestamp index (← vWeight proj oldWeight)
        (← vWeight proj newWeight)
  | .hyperedgeAdded timestamp index vertices weight =>
      return .hyperedgeAdded timestamp index vertices (← heWeight proj weight)
  | .hyperedgeRemoved timestamp index vertices weight =>
      return .hyperedgeRemoved timestamp index vertices (← heWeight proj weight)
  | .hyperedgeWeightUpdated timestamp index oldWeight newWeight =>
      return .hyperedgeWeightUpdated timestamp index (← heWeight proj oldWeight)
        (← heWeight proj newWeight)
  | .hyperedgeVerticesUpdated timestamp index oldVertices newVertices =>
      return .hyperedgeVerticesUpdated timestamp index oldVertices newVertices
  | .hyperedgeReversed timestamp index oldVertices newVertices =>
      return .hyperedgeReversed timestamp index oldVertices newVertices
  | .hyperedgesJoined timestamp targetIndex sourceIndices newVertices =>
      return .hyperedgesJoined timestamp targetIndex sourceIndices newVertices
  | .verticesContracted timestamp hyperedgeIndex contractedVertices targetVertex oldVertices
      newVertices =>
      return .verticesContracted timestamp hyperedgeIndex contractedVertices targetVertex
        oldVertices newVertices
  | .hyperedgesCleared timestamp count => return .hyperedgesCleared timestamp count
  | .graphCleared timestamp vertexCount hyperedgeCount =>
      return .graphCleared timestamp vertexCount hyperedgeCount
  | .snapshotMarker timestamp snapshotId => return .snapshotMarker timestamp snapshotId

section RoundTrips

variable {proj : Projections V HE VW HW}

theorem vWeight_vertexInto (h : proj.RoundTrips) (weight : V) :
    vWeight proj (proj.vertexInto weight) = .ok weight := by
  rw [vWeight, h.vertex, Except.mapError]

theorem heWeight_hyperedgeInto (h : proj.RoundTrips) (weight : HE) :
    heWeight proj (proj.hyperedgeInto weight) = .ok weight := by
  rw [heWeight, h.hyperedge, Except.mapError]

/-- The mirror of an event converts back to the event. -/
theorem tryIntoEvent_fromEvent (h : proj.RoundTrips) (event : TemporalEvent V HE) :
    (fromEvent proj event).tryIntoEvent proj = .ok event := by
  cases event with
  | vertexAdded timestamp index weight =>
      exact except_bind_eq_ok.mpr ⟨_, vWeight_vertexInto h weight, rfl⟩
  | vertexRemoved timestamp index weight =>
      exact except_bind_eq_ok.mpr ⟨_, vWeight_vertexInto h weight, rfl⟩
  | vertexWeightUpdated timestamp index oldWeight newWeight =>
      exact except_bind_eq_ok.mpr ⟨_, vWeight_vertexInto h oldWeight,
        except_bind_eq_ok.mpr ⟨_, vWeight_vertexInto h newWeight, rfl⟩⟩
  | hyperedgeAdded timestamp index vertices weight =>
      exact except_bind_eq_ok.mpr ⟨_, heWeight_hyperedgeInto h weight, rfl⟩
  | hyperedgeRemoved timestamp index vertices weight =>
      exact except_bind_eq_ok.mpr ⟨_, heWeight_hyperedgeInto h weight, rfl⟩
  | hyperedgeWeightUpdated timestamp index oldWeight newWeight =>
      exact except_bind_eq_ok.mpr ⟨_, heWeight_hyperedgeInto h oldWeight,
        except_bind_eq_ok.mpr ⟨_, heWeight_hyperedgeInto h newWeight, rfl⟩⟩
  | _ => rfl

end RoundTrips

end WireTopologyEvent

/-- The external functions of the payload: `ciborium` at a wire event. -/
structure PayloadCodec (VW HW : Type) where
  intoWriter : WireTopologyEvent VW HW → Except String Bytes
  fromReader : Bytes → Except String (WireTopologyEvent VW HW)

/-- Decoding undoes encoding. -/
def PayloadCodec.RoundTrips (codec : PayloadCodec VW HW) : Prop :=
  ∀ wire bytes, codec.intoWriter wire = .ok bytes → codec.fromReader bytes = .ok wire

end Koalisi.Persistence
