import Koalisi.Topology.Timestamp

/-!
# Events of the temporal hypergraph

Every mutation of the graph is recorded as one of thirteen events, each with the
timestamp it happened at and the data needed to read the past back from it.
Vertex and hyperedge indices are the backend's; they are never reused, so the
model takes them from `Nat`.
-/

namespace Koalisi.Topology

/-- Index of a vertex in the graph. -/
abbrev VertexIndex := Nat

/-- Index of a hyperedge in the graph. -/
abbrev HyperedgeIndex := Nat

/-- A unique identifier for a snapshot. -/
abbrev SnapshotId := U64

/-- What can happen to a temporal hypergraph. -/
inductive TemporalEvent (V HE : Type) where
  /-- A vertex was added to the graph. -/
  | vertexAdded (timestamp : Timestamp) (index : VertexIndex) (weight : V)
  /-- A vertex was removed from the graph. -/
  | vertexRemoved (timestamp : Timestamp) (index : VertexIndex) (weight : V)
  /-- A vertex's weight was updated. -/
  | vertexWeightUpdated (timestamp : Timestamp) (index : VertexIndex)
      (oldWeight newWeight : V)
  /-- A hyperedge was added to the graph. -/
  | hyperedgeAdded (timestamp : Timestamp) (index : HyperedgeIndex)
      (vertices : List VertexIndex) (weight : HE)
  /-- A hyperedge was removed from the graph. -/
  | hyperedgeRemoved (timestamp : Timestamp) (index : HyperedgeIndex)
      (vertices : List VertexIndex) (weight : HE)
  /-- A hyperedge's weight was updated. -/
  | hyperedgeWeightUpdated (timestamp : Timestamp) (index : HyperedgeIndex)
      (oldWeight newWeight : HE)
  /-- A hyperedge's vertices were updated. -/
  | hyperedgeVerticesUpdated (timestamp : Timestamp) (index : HyperedgeIndex)
      (oldVertices newVertices : List VertexIndex)
  /-- A hyperedge was reversed. -/
  | hyperedgeReversed (timestamp : Timestamp) (index : HyperedgeIndex)
      (oldVertices newVertices : List VertexIndex)
  /-- Multiple hyperedges were joined into one. -/
  | hyperedgesJoined (timestamp : Timestamp) (targetIndex : HyperedgeIndex)
      (sourceIndices : List HyperedgeIndex) (newVertices : List VertexIndex)
  /-- Vertices were contracted within a hyperedge. -/
  | verticesContracted (timestamp : Timestamp) (hyperedgeIndex : HyperedgeIndex)
      (contractedVertices : List VertexIndex) (targetVertex : VertexIndex)
      (oldVertices newVertices : List VertexIndex)
  /-- All hyperedges were cleared from the graph. -/
  | hyperedgesCleared (timestamp : Timestamp) (count : Nat)
  /-- The entire graph was cleared. -/
  | graphCleared (timestamp : Timestamp) (vertexCount hyperedgeCount : Nat)
  /-- A snapshot marker (for indexing purposes). -/
  | snapshotMarker (timestamp : Timestamp) (snapshotId : SnapshotId)
deriving DecidableEq, Repr

namespace TemporalEvent

variable {V HE : Type}

/-- The timestamp when this event occurred. -/
def timestamp : TemporalEvent V HE → Timestamp
  | .vertexAdded timestamp _ _ => timestamp
  | .vertexRemoved timestamp _ _ => timestamp
  | .vertexWeightUpdated timestamp _ _ _ => timestamp
  | .hyperedgeAdded timestamp _ _ _ => timestamp
  | .hyperedgeRemoved timestamp _ _ _ => timestamp
  | .hyperedgeWeightUpdated timestamp _ _ _ => timestamp
  | .hyperedgeVerticesUpdated timestamp _ _ _ => timestamp
  | .hyperedgeReversed timestamp _ _ _ => timestamp
  | .hyperedgesJoined timestamp _ _ _ => timestamp
  | .verticesContracted timestamp _ _ _ _ _ => timestamp
  | .hyperedgesCleared timestamp _ => timestamp
  | .graphCleared timestamp _ _ => timestamp
  | .snapshotMarker timestamp _ => timestamp

/-- The vertex index affected by this event, if any. -/
def vertexIndex : TemporalEvent V HE → Option VertexIndex
  | .vertexAdded _ index _ => some index
  | .vertexRemoved _ index _ => some index
  | .vertexWeightUpdated _ index _ _ => some index
  | .verticesContracted _ _ _ targetVertex _ _ => some targetVertex
  | _ => none

/-- The hyperedge index affected by this event, if any. -/
def hyperedgeIndex : TemporalEvent V HE → Option HyperedgeIndex
  | .hyperedgeAdded _ index _ _ => some index
  | .hyperedgeRemoved _ index _ _ => some index
  | .hyperedgeWeightUpdated _ index _ _ => some index
  | .hyperedgeVerticesUpdated _ index _ _ => some index
  | .hyperedgeReversed _ index _ _ => some index
  | .hyperedgesJoined _ targetIndex _ _ => some targetIndex
  | .verticesContracted _ hyperedgeIndex _ _ _ _ => some hyperedgeIndex
  | _ => none

/-- Whether this event is a mutation, not just a marker. -/
def isMutation : TemporalEvent V HE → Bool
  | .snapshotMarker .. => false
  | _ => true

/-- An event type name for display. -/
def eventType : TemporalEvent V HE → String
  | .vertexAdded .. => "VertexAdded"
  | .vertexRemoved .. => "VertexRemoved"
  | .vertexWeightUpdated .. => "VertexWeightUpdated"
  | .hyperedgeAdded .. => "HyperedgeAdded"
  | .hyperedgeRemoved .. => "HyperedgeRemoved"
  | .hyperedgeWeightUpdated .. => "HyperedgeWeightUpdated"
  | .hyperedgeVerticesUpdated .. => "HyperedgeVerticesUpdated"
  | .hyperedgeReversed .. => "HyperedgeReversed"
  | .hyperedgesJoined .. => "HyperedgesJoined"
  | .verticesContracted .. => "VerticesContracted"
  | .hyperedgesCleared .. => "HyperedgesCleared"
  | .graphCleared .. => "GraphCleared"
  | .snapshotMarker .. => "SnapshotMarker"

end TemporalEvent

/-- Summary statistics about events. -/
structure EventStats where
  vertexAdded : Nat
  vertexRemoved : Nat
  vertexUpdated : Nat
  hyperedgeAdded : Nat
  hyperedgeRemoved : Nat
  hyperedgeUpdated : Nat
  transforms : Nat
  clears : Nat
  snapshots : Nat
deriving DecidableEq, Repr

namespace EventStats

/-- No event counted. -/
def default : EventStats := ⟨0, 0, 0, 0, 0, 0, 0, 0, 0⟩

/-- Count an event. -/
def count {V HE : Type} (stats : EventStats) : TemporalEvent V HE → EventStats
  | .vertexAdded .. => { stats with vertexAdded := stats.vertexAdded + 1 }
  | .vertexRemoved .. => { stats with vertexRemoved := stats.vertexRemoved + 1 }
  | .vertexWeightUpdated .. => { stats with vertexUpdated := stats.vertexUpdated + 1 }
  | .hyperedgeAdded .. => { stats with hyperedgeAdded := stats.hyperedgeAdded + 1 }
  | .hyperedgeRemoved .. => { stats with hyperedgeRemoved := stats.hyperedgeRemoved + 1 }
  | .hyperedgeWeightUpdated .. => { stats with hyperedgeUpdated := stats.hyperedgeUpdated + 1 }
  | .hyperedgeVerticesUpdated .. => { stats with hyperedgeUpdated := stats.hyperedgeUpdated + 1 }
  | .hyperedgeReversed .. => { stats with transforms := stats.transforms + 1 }
  | .hyperedgesJoined .. => { stats with transforms := stats.transforms + 1 }
  | .verticesContracted .. => { stats with transforms := stats.transforms + 1 }
  | .hyperedgesCleared .. => { stats with clears := stats.clears + 1 }
  | .graphCleared .. => { stats with clears := stats.clears + 1 }
  | .snapshotMarker .. => { stats with snapshots := stats.snapshots + 1 }

end EventStats

end Koalisi.Topology
