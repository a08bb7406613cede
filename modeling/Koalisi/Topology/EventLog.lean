import Mathlib.Data.List.Induction
import Koalisi.Lib.Postings
import Koalisi.Topology.Events

/-!
# The event log and its indices

The log keeps its events in append order, with one inverted index per kind of
object and one by timestamp, all maintained by `append`.  The fields are private
to the source's module and only `new` and `append` write them, so the structure
carries the invariant they keep: each index is `Postings.Indexes` of the events by
the keys `append` files them under.

An index lists an event once *per mention*.  `vertexKeys` and `hyperedgeKeys` say
what an event mentions: its own object first, then the contracted vertices of a
contraction, or the source hyperedges of a join, repeats included.
-/

namespace Koalisi.Topology

open Koalisi.Lib Koalisi.Lib.Timeline

variable {V HE : Type}

namespace TemporalEvent

/-- The vertices an event is filed under. -/
def vertexKeys (event : TemporalEvent V HE) : List VertexIndex :=
  event.vertexIndex.toList ++ match event with
    | .verticesContracted _ _ contractedVertices _ _ _ => contractedVertices
    | _ => []

/-- The hyperedges an event is filed under. -/
def hyperedgeKeys (event : TemporalEvent V HE) : List HyperedgeIndex :=
  event.hyperedgeIndex.toList ++ match event with
    | .hyperedgesJoined _ _ sourceIndices _ => sourceIndices
    | _ => []

end TemporalEvent

/-- The event log: all events, and where to find the ones about an object. -/
structure EventLog (V HE : Type) where
  /-- All events, in append order. -/
  events : List (TemporalEvent V HE)
  /-- From timestamp to event positions at that timestamp. -/
  timeIndex : Postings Timestamp
  /-- From vertex to event positions affecting that vertex. -/
  vertexIndex : Postings VertexIndex
  /-- From hyperedge to event positions affecting that hyperedge. -/
  hyperedgeIndex : Postings HyperedgeIndex
  /-- Snapshots ordered by timestamp. -/
  snapshotIndex : Std.TreeMap Timestamp (SnapshotId × Nat)
  /-- Running event-type counts. -/
  stats : EventStats
  timeIndexed : timeIndex.Indexes (fun event ↦ [event.timestamp]) events
  vertexIndexed : vertexIndex.Indexes TemporalEvent.vertexKeys events
  hyperedgeIndexed : hyperedgeIndex.Indexes TemporalEvent.hyperedgeKeys events

namespace EventLog

/-- A new empty event log. -/
def new : EventLog V HE where
  events := []
  timeIndex := ∅
  vertexIndex := ∅
  hyperedgeIndex := ∅
  snapshotIndex := ∅
  stats := .default
  timeIndexed := .empty
  vertexIndexed := .empty
  hyperedgeIndexed := .empty

/-- File an event under the vertices it affects. -/
def pushVertices (vertexIndex : Postings VertexIndex) (event : TemporalEvent V HE)
    (index : Nat) : Postings VertexIndex :=
  let vertexIndex := match event.vertexIndex with
    | some vertex => vertexIndex.push vertex index
    | none => vertexIndex
  -- Contracted vertices each get the same event in their per-vertex history.
  match event with
  | .verticesContracted _ _ contractedVertices _ _ _ =>
      contractedVertices.foldl (fun m v ↦ m.push v index) vertexIndex
  | _ => vertexIndex

/-- File an event under the hyperedges it affects. -/
def pushHyperedges (hyperedgeIndex : Postings HyperedgeIndex) (event : TemporalEvent V HE)
    (index : Nat) : Postings HyperedgeIndex :=
  let hyperedgeIndex := match event.hyperedgeIndex with
    | some hyperedge => hyperedgeIndex.push hyperedge index
    | none => hyperedgeIndex
  -- Source hyperedges each get the join event in their per-hyperedge history.
  match event with
  | .hyperedgesJoined _ _ sourceIndices _ =>
      sourceIndices.foldl (fun m h ↦ m.push h index) hyperedgeIndex
  | _ => hyperedgeIndex

theorem pushVertices_eq (m : Postings VertexIndex) (event : TemporalEvent V HE) (index : Nat) :
    pushVertices m event index = m.pushAll event.vertexKeys index := by
  cases event <;> rfl

theorem pushHyperedges_eq (m : Postings HyperedgeIndex) (event : TemporalEvent V HE)
    (index : Nat) : pushHyperedges m event index = m.pushAll event.hyperedgeKeys index := by
  cases event <;> rfl

/-- Append an event to the log and update indices. -/
def append (log : EventLog V HE) (event : TemporalEvent V HE) : EventLog V HE where
  events := log.events ++ [event]
  timeIndex := log.timeIndex.push event.timestamp log.events.length
  vertexIndex := pushVertices log.vertexIndex event log.events.length
  hyperedgeIndex := pushHyperedges log.hyperedgeIndex event log.events.length
  snapshotIndex := match event with
    | .snapshotMarker timestamp snapshotId =>
        log.snapshotIndex.insert timestamp (snapshotId, log.events.length)
    | _ => log.snapshotIndex
  stats := log.stats.count event
  timeIndexed := log.timeIndexed.append event
  vertexIndexed := by rw [pushVertices_eq]; exact log.vertexIndexed.append event
  hyperedgeIndexed := by rw [pushHyperedges_eq]; exact log.hyperedgeIndexed.append event

/-- The log of a list of events appended one by one. -/
def ofEvents (events : List (TemporalEvent V HE)) : EventLog V HE := events.foldl append new

/-- The total number of events. -/
def len (log : EventLog V HE) : Nat := log.events.length

/-- Events affecting a specific vertex. -/
def vertexEvents (log : EventLog V HE) (vertex : VertexIndex) : List (TemporalEvent V HE) :=
  (log.vertexIndex.positions vertex).filterMap (log.events[·]?)

/-- Events affecting a specific hyperedge. -/
def hyperedgeEvents (log : EventLog V HE) (hyperedge : HyperedgeIndex) :
    List (TemporalEvent V HE) :=
  (log.hyperedgeIndex.positions hyperedge).filterMap (log.events[·]?)

/-- Vertex indices ever touched. -/
def vertexIndices (log : EventLog V HE) : List VertexIndex := log.vertexIndex.keys

/-- Hyperedge indices ever touched. -/
def hyperedgeIndices (log : EventLog V HE) : List HyperedgeIndex := log.hyperedgeIndex.keys

@[simp] theorem events_new : (new : EventLog V HE).events = [] := rfl

@[simp] theorem events_append (log : EventLog V HE) (event : TemporalEvent V HE) :
    (log.append event).events = log.events ++ [event] := rfl

@[simp] theorem ofEvents_concat (events : List (TemporalEvent V HE))
    (event : TemporalEvent V HE) :
    ofEvents (events ++ [event]) = (ofEvents events).append event := by
  simp [ofEvents]

@[simp] theorem events_ofEvents (events : List (TemporalEvent V HE)) :
    (ofEvents events).events = events := by
  induction events using List.reverseRecOn with
  | nil => rfl
  | append_singleton es e ih => rw [ofEvents_concat, events_append, ih]

/-- Appending events one by one appends the list of them. -/
@[simp] theorem events_foldl_append (log : EventLog V HE) (later : List (TemporalEvent V HE)) :
    (later.foldl append log).events = log.events ++ later := by
  induction later generalizing log with
  | nil => exact (List.append_nil _).symm
  | cons e es ih => rw [List.foldl_cons, ih, events_append, List.append_assoc]; rfl

/-- The events of a vertex are its history: every event, once per mention. -/
theorem vertexEvents_eq (log : EventLog V HE) (vertex : VertexIndex) :
    log.vertexEvents vertex = mentions TemporalEvent.vertexKeys vertex log.events :=
  log.vertexIndexed.resolve vertex

/-- The events of a hyperedge are its history: every event, once per mention. -/
theorem hyperedgeEvents_eq (log : EventLog V HE) (hyperedge : HyperedgeIndex) :
    log.hyperedgeEvents hyperedge = mentions TemporalEvent.hyperedgeKeys hyperedge log.events :=
  log.hyperedgeIndexed.resolve hyperedge

theorem nodup_vertexIndices (log : EventLog V HE) : log.vertexIndices.Nodup :=
  Std.TreeMap.nodup_keys

theorem nodup_hyperedgeIndices (log : EventLog V HE) : log.hyperedgeIndices.Nodup :=
  Std.TreeMap.nodup_keys

/-- A vertex is listed exactly when some event mentions it. -/
theorem mem_vertexIndices {log : EventLog V HE} {vertex : VertexIndex} :
    vertex ∈ log.vertexIndices ↔ ∃ event ∈ log.events, vertex ∈ event.vertexKeys := by
  rw [vertexIndices, Std.TreeMap.mem_keys]
  exact log.vertexIndexed.present vertex

/-- A hyperedge is listed exactly when some event mentions it. -/
theorem mem_hyperedgeIndices {log : EventLog V HE} {hyperedge : HyperedgeIndex} :
    hyperedge ∈ log.hyperedgeIndices ↔
      ∃ event ∈ log.events, hyperedge ∈ event.hyperedgeKeys := by
  rw [hyperedgeIndices, Std.TreeMap.mem_keys]
  exact log.hyperedgeIndexed.present hyperedge

end EventLog

end Koalisi.Topology
