import Koalisi.Lib.Channel
import Koalisi.Lib.Fallible
import Koalisi.Topology.EventLog
import Koalisi.Topology.Hypergraph

/-!
# The temporal hypergraph

A `TemporalHypergraph` wraps a graph and records every mutation as an event.  A
mutation method hands two closures to `mutate`: the *job*, which runs on the graph
under its write lock and may fail, and *finish*, which builds the event from the
job's output once the clock has ticked.  `mutation` packs the pair; a method below
is the pair its source passes, and calling the method is `mutate` of it.

One call is one task holding the mutation lock from before the job to after the
append, so a call through one value is a single step of the value's state.  What
tasks of several values do in between is the subject of `Clones`.

The operation names and error texts that only reach the log output are left out,
and so is the cancellation of a task by the shutdown of its runtime.
-/

namespace Koalisi.Topology

open Koalisi.Lib Koalisi.Lib.Fallible

/-- Errors that can occur during temporal hypergraph operations. -/
inductive TemporalError (E : Type) where
  /-- An error from the underlying hypergraph. -/
  | hypergraph (error : E)
  | timestampInFuture (requested current : Timestamp)
  | noSnapshotBefore (timestamp : Timestamp)
  | snapshotNotFound (id : SnapshotId)
  | replayError (eventIndex : Nat) (message : String)
  | invalidTimeRange (start stop : Timestamp)
  | eventLogCorrupted (message : String)
  | concurrentModification
  | emptyCoalition
  /-- The graph's lock is poisoned. -/
  | lockPoisoned
  | taskCancelled
deriving DecidableEq, Repr

/-- How a computation can fail to return a value: with an error, or by a panic. -/
inductive Fault (E : Type) where
  | err (error : TemporalError E)
  | panic
deriving DecidableEq, Repr

/-- A snapshot marker at a point in time. -/
structure Snapshot where
  id : SnapshotId
  timestamp : Timestamp
  /-- The event index at which this snapshot was taken. -/
  eventIndex : Nat
deriving DecidableEq, Repr

/-- The sending half of an event tap, with the warnings logged for dropped events. -/
structure EventTap (V HE : Type) where
  channel : Channel (TemporalEvent V HE)
  /-- Why an event was dropped, and its type. -/
  warnings : List (TrySendError × String)

/-- What a value shares with its clones. -/
structure Shared (G V HE : Type) where
  /-- The underlying graph. -/
  graph : G
  /-- Code running under the graph's write lock has panicked. -/
  poisoned : Bool
  /-- The event log. -/
  events : EventLog V HE
  /-- Snapshots indexed by timestamp. -/
  snapshots : Std.TreeMap Timestamp Snapshot
  /-- Mirrors every event recorded after its installation. -/
  eventTap : Option (EventTap V HE)

/-- What each value has of its own. -/
structure Own where
  /-- Logical clock for timestamps. -/
  clock : Clock
  /-- Counter for snapshot ids. -/
  snapshotCounter : U64

/-- A temporal hypergraph with full event sourcing. -/
structure TemporalHypergraph (G V HE : Type) extends Shared G V HE, Own

variable {G V HE E T R : Type}

/-- Mirror an event to a tap, if any; a full or closed tap drops it with a warning. -/
def tapEvent (tap : Option (EventTap V HE)) (event : TemporalEvent V HE) :
    Option (EventTap V HE) :=
  tap.map fun tap ↦ match tap.channel.trySend event with
    | .ok channel => { tap with channel := channel }
    | .error reason => { tap with warnings := tap.warnings ++ [(reason, event.eventType)] }

/-- A computation on the graph, under its write lock. -/
abbrev Job (G E T : Type) := EStateM (Fault E) G T

namespace Job

/-- `From<HypergraphError> for TemporalError`. -/
def ofHypergraphError (error : E) : Fault E := .err (.hypergraph error)

/-- A fallible read of the graph, with `?`. -/
def read (f : G → Except E T) : Job G E T := mapError ofHypergraphError (look f)

/-- A fallible operation of the graph, with `?`. -/
def write (x : EStateM E G T) : Job G E T := mapError ofHypergraphError x

/-- An infallible operation of the graph. -/
def total (f : G → T × G) : Job G E T := fun g ↦ .ok (f g).1 (f g).2

/-- A computation that does not touch the graph. -/
def pureTry (x : Except (Fault E) T) : Job G E T := look fun _ ↦ x

end Job

/-- The two closures a mutation method hands to `mutate`, one after the other: the
job, and the event and value to finish with once the timestamp is known. -/
abbrev Mutation (G V HE E R : Type) := Job G E (Timestamp → TemporalEvent V HE × R)

/-- Pack a job and its finish. -/
def mutation (job : Job G E T) (finish : Timestamp → T → TemporalEvent V HE × R) :
    Job G E (Timestamp → TemporalEvent V HE × R) := do
  let output ← job
  return fun timestamp ↦ finish timestamp output

namespace TemporalHypergraph

/-- Run a job under the graph's write lock.  A panic poisons the lock. -/
def runJob (job : Job G E T) : EStateM (Fault E) (TemporalHypergraph G V HE) T := fun self ↦
  if self.poisoned then .error (.err .lockPoisoned) self
  else match job self.graph with
    | .ok output graph => .ok output { self with graph := graph }
    | .error (.err error) graph => .error (.err error) { self with graph := graph }
    | .error .panic graph => .error .panic { self with graph := graph, poisoned := true }

/-- Tick the clock. -/
def tick : EStateM (Fault E) (TemporalHypergraph G V HE) Timestamp := fun self ↦
  .ok self.clock.tick.1 { self with clock := self.clock.tick.2 }

/-- Tap and append an event, under the event-log write lock. -/
def record (event : TemporalEvent V HE) :
    EStateM (Fault E) (TemporalHypergraph G V HE) Unit := fun self ↦
  .ok () { self with
    eventTap := tapEvent self.eventTap event
    events := self.events.append event }

/-- Run one graph mutation: the job, and on success the tick and the record. -/
def mutate (m : Mutation G V HE E R) : EStateM (Fault E) (TemporalHypergraph G V HE) R := do
  let finish ← runJob m
  let timestamp ← tick
  let (event, value) := finish timestamp
  record event
  return value

/-- Wrap an existing graph. -/
def wrap (graph : G) : TemporalHypergraph G V HE where
  graph := graph
  poisoned := false
  events := .new
  snapshots := ∅
  clock := .new
  snapshotCounter := 0
  eventTap := none

/-- A new temporal hypergraph. -/
def new [Hypergraph G V HE E] : TemporalHypergraph G V HE := wrap Hypergraph.new

/-- Install an event tap. -/
def withEventTap (self : TemporalHypergraph G V HE) (tap : Channel (TemporalEvent V HE)) :
    TemporalHypergraph G V HE :=
  { self with eventTap := some ⟨tap, []⟩ }

/-! ## Mutation methods -/

section Methods

variable [Hypergraph G V HE E]

/-- Add a vertex. -/
def addVertex (weight : V) : Mutation G V HE E VertexIndex :=
  mutation (Job.total (Hypergraph.addVertex weight))
    fun timestamp index ↦ (.vertexAdded timestamp index weight, index)

/-- Remove a vertex. -/
def removeVertex (index : VertexIndex) : Mutation G V HE E Unit :=
  mutation
    (do
      let weight ← Job.read (Hypergraph.getVertexWeight index)
      Job.write (Hypergraph.removeVertex index)
      return weight)
    fun timestamp weight ↦ (.vertexRemoved timestamp index weight, ())

/-- Update a vertex weight. -/
def updateVertexWeight (index : VertexIndex) (newWeight : V) : Mutation G V HE E Unit :=
  mutation
    (do
      let oldWeight ← Job.read (Hypergraph.getVertexWeight index)
      Job.write (Hypergraph.updateVertexWeight index newWeight)
      return oldWeight)
    fun timestamp oldWeight ↦ (.vertexWeightUpdated timestamp index oldWeight newWeight, ())

/-- Add a hyperedge. -/
def addHyperedge (vertices : List VertexIndex) (weight : HE) :
    Mutation G V HE E HyperedgeIndex :=
  mutation (Job.write (Hypergraph.addHyperedge vertices weight))
    fun timestamp index ↦ (.hyperedgeAdded timestamp index vertices weight, index)

/-- Remove a hyperedge. -/
def removeHyperedge (index : HyperedgeIndex) : Mutation G V HE E Unit :=
  mutation
    (do
      let vertices ← Job.read (Hypergraph.getHyperedgeVertices index)
      let weight ← Job.read (Hypergraph.getHyperedgeWeight index)
      Job.write (Hypergraph.removeHyperedge index)
      return (vertices, weight))
    fun timestamp (vertices, weight) ↦ (.hyperedgeRemoved timestamp index vertices weight, ())

/-- Update a hyperedge weight. -/
def updateHyperedgeWeight (index : HyperedgeIndex) (newWeight : HE) : Mutation G V HE E Unit :=
  mutation
    (do
      let oldWeight ← Job.read (Hypergraph.getHyperedgeWeight index)
      Job.write (Hypergraph.updateHyperedgeWeight index newWeight)
      return oldWeight)
    fun timestamp oldWeight ↦ (.hyperedgeWeightUpdated timestamp index oldWeight newWeight, ())

/-- Update a hyperedge's vertices. -/
def updateHyperedgeVertices (index : HyperedgeIndex) (newVertices : List VertexIndex) :
    Mutation G V HE E Unit :=
  mutation
    (do
      let oldVertices ← Job.read (Hypergraph.getHyperedgeVertices index)
      Job.write (Hypergraph.updateHyperedgeVertices index newVertices)
      return oldVertices)
    fun timestamp oldVertices ↦
      (.hyperedgeVerticesUpdated timestamp index oldVertices newVertices, ())

/-- Replace a hyperedge's vertices with what a mutator makes of them.  The mutator
is the caller's code: it may fail, and it may panic. -/
def updateHyperedgeVerticesTry (index : HyperedgeIndex)
    (mutator : List VertexIndex → Except (Fault E) (List VertexIndex)) :
    Mutation G V HE E Unit :=
  mutation
    (do
      let oldVertices ← Job.read (Hypergraph.getHyperedgeVertices index)
      let newVertices ← Job.pureTry (mutator oldVertices)
      Job.write (Hypergraph.updateHyperedgeVertices index newVertices)
      return (oldVertices, newVertices))
    fun timestamp (oldVertices, newVertices) ↦
      (.hyperedgeVerticesUpdated timestamp index oldVertices newVertices, ())

/-- Reverse a hyperedge. -/
def reverseHyperedge (index : HyperedgeIndex) : Mutation G V HE E (List VertexIndex) :=
  mutation
    (do
      let oldVertices ← Job.read (Hypergraph.getHyperedgeVertices index)
      Job.write (Hypergraph.reverseHyperedge index)
      let newVertices ← Job.read (Hypergraph.getHyperedgeVertices index)
      return (oldVertices, newVertices))
    fun timestamp (oldVertices, newVertices) ↦
      (.hyperedgeReversed timestamp index oldVertices newVertices, newVertices)

/-- `indices[1..]`, which panics on an empty vector. -/
def sliceFromOne (indices : List HyperedgeIndex) : Except (Fault E) (List HyperedgeIndex) :=
  if 1 ≤ indices.length then .ok (indices.drop 1) else .error .panic

/-- Join hyperedges. -/
def joinHyperedges (indices : List HyperedgeIndex) : Mutation G V HE E Unit :=
  mutation
    (do
      let targetIndex ← Job.write (Hypergraph.joinHyperedges indices)
      let sourceIndices ← Job.pureTry (sliceFromOne indices)
      let newVertices ← Job.read (Hypergraph.getHyperedgeVertices targetIndex)
      return (targetIndex, sourceIndices, newVertices))
    fun timestamp (targetIndex, sourceIndices, newVertices) ↦
      (.hyperedgesJoined timestamp targetIndex sourceIndices newVertices, ())

/-- Contract vertices in a hyperedge. -/
def contractHyperedgeVertices (hyperedgeIndex : HyperedgeIndex) (vertices : List VertexIndex)
    (target : VertexIndex) : Mutation G V HE E (List VertexIndex) :=
  mutation
    (do
      let oldVertices ← Job.read (Hypergraph.getHyperedgeVertices hyperedgeIndex)
      let newVertices ←
        Job.write (Hypergraph.contractHyperedgeVertices hyperedgeIndex vertices target)
      return (oldVertices, newVertices))
    fun timestamp (oldVertices, newVertices) ↦
      (.verticesContracted timestamp hyperedgeIndex vertices target oldVertices newVertices,
        newVertices)

/-- Clear all hyperedges. -/
def clearHyperedges : Mutation G V HE E Unit :=
  mutation
    (Job.total fun g ↦ (Hypergraph.countHyperedges g, Hypergraph.clearHyperedges g))
    fun timestamp count ↦ (.hyperedgesCleared timestamp count, ())

/-- Clear the entire graph. -/
def clear : Mutation G V HE E Unit :=
  mutation
    (Job.total fun g ↦
      ((Hypergraph.countVertices g, Hypergraph.countHyperedges g), Hypergraph.clear g))
    fun timestamp (vertexCount, hyperedgeCount) ↦
      (.graphCleared timestamp vertexCount hyperedgeCount, ())

end Methods

/-! ## Snapshots -/

/-- `snapshot_counter.fetch_add(1)`. -/
def nextSnapshotId : EStateM (Fault E) (TemporalHypergraph G V HE) SnapshotId := fun self ↦
  .ok self.snapshotCounter { self with snapshotCounter := self.snapshotCounter + 1 }

/-- The number of events recorded so far. -/
def eventCount : EStateM (Fault E) (TemporalHypergraph G V HE) Nat := fun self ↦
  .ok self.events.len self

/-- Store a snapshot under its timestamp. -/
def insertSnapshot (snapshot : Snapshot) :
    EStateM (Fault E) (TemporalHypergraph G V HE) Unit := fun self ↦
  .ok () { self with snapshots := self.snapshots.insert snapshot.timestamp snapshot }

/-- Create a snapshot at the current timestamp. -/
def createSnapshot : EStateM (Fault E) (TemporalHypergraph G V HE) SnapshotId := do
  let id ← nextSnapshotId
  let timestamp ← tick
  let index ← eventCount
  record (.snapshotMarker timestamp id)
  insertSnapshot ⟨id, timestamp, index⟩
  return id

/-- The part of a clone that is its own: a clock that starts where this one stands, and a
copy of the snapshot counter. -/
def clone (self : TemporalHypergraph G V HE) : Own where
  clock := .startingAt self.clock.current
  snapshotCounter := self.snapshotCounter

end TemporalHypergraph

end Koalisi.Topology
