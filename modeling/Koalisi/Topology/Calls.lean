import Koalisi.Topology.MapGraph
import Koalisi.Topology.Temporal

/-!
# Calls, and what one call does

`Call` is the syntax of a mutation call: a method with its arguments.  Everything
later files need to know about a call is in `mutate_eq_ok` and `mutate_eq_error`,
which say what `mutate` did in terms of the job, and in two facts about the
thirteen jobs, proved here by one case per method: a job that fails leaves the
graph alone (`Call.atomic`), and a job that succeeds finishes with an event that
carries the timestamp it is given (`Call.timestamp_finish`).

Together they make a call atomic: it changes nothing, or it ticks the clock once
and records one event.
-/

namespace Koalisi.Topology

open Koalisi.Lib Koalisi.Lib.Fallible

variable {G V HE E T R : Type}

/-- A mutation method with its arguments. -/
inductive Call (V HE E : Type) where
  | addVertex (weight : V)
  | removeVertex (index : VertexIndex)
  | updateVertexWeight (index : VertexIndex) (newWeight : V)
  | addHyperedge (vertices : List VertexIndex) (weight : HE)
  | removeHyperedge (index : HyperedgeIndex)
  | updateHyperedgeWeight (index : HyperedgeIndex) (newWeight : HE)
  | updateHyperedgeVertices (index : HyperedgeIndex) (newVertices : List VertexIndex)
  | updateHyperedgeVerticesTry (index : HyperedgeIndex)
      (mutator : List VertexIndex → Except (Fault E) (List VertexIndex))
  | reverseHyperedge (index : HyperedgeIndex)
  | joinHyperedges (indices : List HyperedgeIndex)
  | contractHyperedgeVertices (hyperedgeIndex : HyperedgeIndex) (vertices : List VertexIndex)
      (target : VertexIndex)
  | clearHyperedges
  | clear

namespace Call

/-- What the method returns. -/
abbrev Reply : Call V HE E → Type
  | .addVertex _ => VertexIndex
  | .addHyperedge _ _ => HyperedgeIndex
  | .reverseHyperedge _ => List VertexIndex
  | .contractHyperedgeVertices _ _ _ => List VertexIndex
  | _ => Unit

/-- The method called. -/
def mutation [Hypergraph G V HE E] : (call : Call V HE E) → Mutation G V HE E call.Reply
  | .addVertex weight => TemporalHypergraph.addVertex weight
  | .removeVertex index => TemporalHypergraph.removeVertex index
  | .updateVertexWeight index newWeight =>
      TemporalHypergraph.updateVertexWeight index newWeight
  | .addHyperedge vertices weight => TemporalHypergraph.addHyperedge vertices weight
  | .removeHyperedge index => TemporalHypergraph.removeHyperedge index
  | .updateHyperedgeWeight index newWeight =>
      TemporalHypergraph.updateHyperedgeWeight index newWeight
  | .updateHyperedgeVertices index newVertices =>
      TemporalHypergraph.updateHyperedgeVertices index newVertices
  | .updateHyperedgeVerticesTry index mutator =>
      TemporalHypergraph.updateHyperedgeVerticesTry index mutator
  | .reverseHyperedge index => TemporalHypergraph.reverseHyperedge index
  | .joinHyperedges indices => TemporalHypergraph.joinHyperedges indices
  | .contractHyperedgeVertices hyperedgeIndex vertices target =>
      TemporalHypergraph.contractHyperedgeVertices hyperedgeIndex vertices target
  | .clearHyperedges => TemporalHypergraph.clearHyperedges
  | .clear => TemporalHypergraph.clear

end Call

/-! ## Inversion of `mutate` -/

namespace TemporalHypergraph

/-- The value after its graph changed and the event of that change was recorded. -/
def recorded (self : TemporalHypergraph G V HE) (graph : G) (event : TemporalEvent V HE) :
    TemporalHypergraph G V HE :=
  { self with
    graph := graph
    clock := self.clock.tick.2
    eventTap := tapEvent self.eventTap event
    events := self.events.append event }

section Recorded

variable (self : TemporalHypergraph G V HE) (graph : G) (event : TemporalEvent V HE)

@[simp] theorem recorded_graph : (self.recorded graph event).graph = graph := rfl
@[simp] theorem recorded_poisoned : (self.recorded graph event).poisoned = self.poisoned := rfl
@[simp] theorem recorded_events :
    (self.recorded graph event).events = self.events.append event := rfl
@[simp] theorem recorded_clock : (self.recorded graph event).clock = self.clock.tick.2 := rfl

end Recorded

/-- A job runs to a value exactly when the lock is not poisoned and the job does. -/
theorem runJob_eq_ok {job : Job G E T} {self self' : TemporalHypergraph G V HE} {output : T} :
    runJob job self = .ok output self' ↔ self.poisoned = false ∧
      ∃ graph, job self.graph = .ok output graph ∧ self' = { self with graph := graph } := by
  unfold runJob
  cases hp : self.poisoned with
  | true => simp
  | false =>
      cases hj : job self.graph with
      | ok a g =>
          simp only [Bool.false_eq_true, if_false, EStateM.Result.ok.injEq, true_and]
          constructor
          · rintro ⟨rfl, rfl⟩
            exact ⟨g, ⟨rfl, rfl⟩, rfl⟩
          · rintro ⟨graph, ⟨rfl, rfl⟩, rfl⟩
            exact ⟨rfl, rfl⟩
      | error fault g => cases fault <;> simp

/-- A job that does not run to a value failed on a poisoned lock, or by itself; a
panic poisons the lock. -/
theorem runJob_eq_error {job : Job G E T} {self self' : TemporalHypergraph G V HE}
    {fault : Fault E} (h : runJob job self = .error fault self') :
    (self.poisoned = true ∧ fault = .err .lockPoisoned ∧ self' = self) ∨
      ∃ graph, job self.graph = .error fault graph ∧
        ((∃ error, fault = .err error ∧ self' = { self with graph := graph }) ∨
          fault = .panic ∧ self' = { self with graph := graph, poisoned := true }) := by
  unfold runJob at h
  cases hp : self.poisoned with
  | true =>
      rw [hp, if_pos rfl] at h
      cases h
      exact Or.inl ⟨rfl, rfl, rfl⟩
  | false =>
      rw [hp, if_neg Bool.false_ne_true] at h
      refine Or.inr ?_
      cases hj : job self.graph with
      | ok a g =>
          rw [hj] at h
          cases h
      | error fault' g =>
          rw [hj] at h
          cases fault' with
          | err error =>
              cases h
              exact ⟨g, rfl, Or.inl ⟨error, rfl, rfl⟩⟩
          | panic =>
              cases h
              exact ⟨g, rfl, Or.inr ⟨rfl, rfl⟩⟩

/-- A mutation returns a value exactly when its job does, and then records one event. -/
theorem mutate_eq_ok {m : Mutation G V HE E R} {self self' : TemporalHypergraph G V HE}
    {value : R} :
    mutate m self = .ok value self' ↔ self.poisoned = false ∧ ∃ finish graph,
      m self.graph = .ok finish graph ∧ (finish self.clock.current).2 = value ∧
        self' = self.recorded graph (finish self.clock.current).1 := by
  constructor
  · intro h
    obtain ⟨finish, mid, hj, hrest⟩ := bind_eq_ok.mp h
    obtain ⟨hp, graph, hm, rfl⟩ := runJob_eq_ok.mp hj
    cases hrest
    exact ⟨hp, finish, graph, hm, rfl, rfl⟩
  · rintro ⟨hp, finish, graph, hm, rfl, rfl⟩
    exact bind_eq_ok.mpr ⟨finish, { self with graph := graph },
      runJob_eq_ok.mpr ⟨hp, graph, hm, rfl⟩, rfl⟩

/-- A mutation fails exactly when running its job does. -/
theorem mutate_eq_error {m : Mutation G V HE E R} {self self' : TemporalHypergraph G V HE}
    {fault : Fault E} :
    mutate m self = .error fault self' ↔ runJob m self = .error fault self' := by
  constructor
  · intro h
    rcases bind_eq_error.mp h with h | ⟨finish, mid, _, hrest⟩
    · exact h
    · cases hrest
  · exact fun h ↦ bind_eq_error.mpr (Or.inl h)

end TemporalHypergraph

/-! ## The jobs -/

theorem Job.readOnly_read (f : G → Except E T) : ReadOnly (Job.read f) := fun s a s' h ↦
  readOnly_look f s a s' (mapError_eq_ok.mp h)

theorem Job.atomic_read (f : G → Except E T) : Atomic (Job.read f) := (atomic_look f).mapError

/-- Packing a job keeps it atomic. -/
theorem atomic_mutation {job : Job G E T} {finish : Timestamp → T → TemporalEvent V HE × R}
    (h : Atomic job) : Atomic (mutation job finish) :=
  h.bind_total fun _ _ _ _ _ _ ↦ pure_ne_error

/-- Inversion of a packed job. -/
theorem mutation_eq_ok {job : Job G E T} {finish : Timestamp → T → TemporalEvent V HE × R}
    {g g' : G} {k : Timestamp → TemporalEvent V HE × R} :
    mutation job finish g = .ok k g' ↔
      ∃ output, job g = .ok output g' ∧ k = fun timestamp ↦ finish timestamp output := by
  constructor
  · intro h
    obtain ⟨output, g₁, hj, hk⟩ := bind_eq_ok.mp h
    obtain ⟨rfl, rfl⟩ := pure_eq_ok.mp hk
    exact ⟨output, hj, rfl⟩
  · rintro ⟨output, hj, rfl⟩
    exact bind_eq_ok.mpr ⟨output, g', hj, rfl⟩

/-- Read, then write, then return: the shape of most jobs. -/
theorem atomic_read_write {f : G → Except E T} {x : T → EStateM E G R} {T' : Type}
    {r : T → R → T'} (hx : ∀ a, Atomic (x a)) :
    Atomic (do let a ← Job.read f; let b ← Job.write (x a); return r a b : Job G E T') :=
  (Job.atomic_read f).bind_readOnly (Job.readOnly_read f) fun a ↦
    (hx a).mapError.bind_total fun _ _ _ _ _ _ ↦ pure_ne_error

namespace Call

/-- A mutation whose job fails leaves the graph alone. -/
theorem atomic [Hypergraph G V HE E] [AtomicHypergraph G] (call : Call V HE E) :
    Atomic (call.mutation : Mutation G V HE E call.Reply) := by
  cases call with
  | addVertex w => exact atomic_mutation fun _ _ _ h ↦ nomatch h
  | removeVertex v =>
      exact atomic_mutation (atomic_read_write fun _ ↦ AtomicHypergraph.removeVertex_error v)
  | updateVertexWeight v w =>
      exact atomic_mutation
        (atomic_read_write fun _ ↦ AtomicHypergraph.updateVertexWeight_error v w)
  | addHyperedge vs w =>
      exact atomic_mutation (Atomic.mapError (AtomicHypergraph.addHyperedge_error vs w))
  | removeHyperedge h =>
      exact atomic_mutation <| (Job.atomic_read _).bind_readOnly (Job.readOnly_read _) fun _ ↦
        atomic_read_write fun _ ↦ AtomicHypergraph.removeHyperedge_error h
  | updateHyperedgeWeight h w =>
      exact atomic_mutation
        (atomic_read_write fun _ ↦ AtomicHypergraph.updateHyperedgeWeight_error h w)
  | updateHyperedgeVertices h vs =>
      exact atomic_mutation
        (atomic_read_write fun _ ↦ AtomicHypergraph.updateHyperedgeVertices_error h vs)
  | updateHyperedgeVerticesTry h mutator =>
      refine atomic_mutation <| (Job.atomic_read _).bind_readOnly (Job.readOnly_read _) fun _ ↦
        (atomic_look _).bind_readOnly (readOnly_look _) fun vs ↦ ?_
      exact (Atomic.mapError (AtomicHypergraph.updateHyperedgeVertices_error h vs)).bind_total
        fun _ _ _ _ _ _ ↦ pure_ne_error
  | reverseHyperedge h =>
      refine atomic_mutation <| (Job.atomic_read _).bind_readOnly (Job.readOnly_read _) fun _ ↦
        (Atomic.mapError (AtomicHypergraph.reverseHyperedge_error h)).bind_total ?_
      -- The second read is of the hyperedge just reversed, so it succeeds.
      intro g _ g' hw e g'' herr
      obtain ⟨vs, hvs⟩ :=
        AtomicHypergraph.reverseHyperedge_readable h g g' (mapError_eq_ok.mp hw)
      rcases bind_eq_error.mp herr with herr | ⟨_, _, _, herr⟩
      · obtain ⟨e', he', _⟩ := mapError_eq_error.mp herr
        rw [(look_eq_error.mp he').1] at hvs
        cases hvs
      · exact pure_ne_error herr
  | joinHyperedges hs =>
      refine atomic_mutation <|
        (Atomic.mapError (AtomicHypergraph.joinHyperedges_error hs)).bind_total ?_
      -- A join that succeeded had two indices to slice, and left its target readable.
      intro g t g' hw e g'' herr
      obtain ⟨hlen, vs, hvs⟩ :=
        AtomicHypergraph.joinHyperedges_readable hs g t g' (mapError_eq_ok.mp hw)
      rcases bind_eq_error.mp herr with herr | ⟨srcs, g₁, hs, herr⟩
      · have hslice := (look_eq_error.mp herr).1
        rw [TemporalHypergraph.sliceFromOne, if_pos (Nat.le_of_lt hlen)] at hslice
        cases hslice
      · obtain ⟨_, rfl⟩ := look_eq_ok.mp hs
        rcases bind_eq_error.mp herr with herr | ⟨_, _, _, herr⟩
        · obtain ⟨e', he', _⟩ := mapError_eq_error.mp herr
          rw [(look_eq_error.mp he').1] at hvs
          cases hvs
        · exact pure_ne_error herr
  | contractHyperedgeVertices h vs v =>
      exact atomic_mutation
        (atomic_read_write fun _ ↦ AtomicHypergraph.contractHyperedgeVertices_error h vs v)
  | clearHyperedges => exact atomic_mutation fun _ _ _ h ↦ nomatch h
  | clear => exact atomic_mutation fun _ _ _ h ↦ nomatch h

/-- The event a call finishes with carries the timestamp it was given. -/
theorem timestamp_finish [Hypergraph G V HE E] (call : Call V HE E) {g g' : G}
    {finish : Timestamp → TemporalEvent V HE × call.Reply}
    (h : (call.mutation : Mutation G V HE E call.Reply) g = .ok finish g')
    (timestamp : Timestamp) : (finish timestamp).1.timestamp = timestamp := by
  cases call <;> obtain ⟨output, _, rfl⟩ := mutation_eq_ok.mp h <;> rfl

/-- A mutation does not finish with a snapshot marker. -/
theorem finish_ne_snapshotMarker [Hypergraph G V HE E] (call : Call V HE E) {g g' : G}
    {finish : Timestamp → TemporalEvent V HE × call.Reply}
    (h : (call.mutation : Mutation G V HE E call.Reply) g = .ok finish g')
    (timestamp t : Timestamp) (id : SnapshotId) : (finish timestamp).1 ≠ .snapshotMarker t id := by
  cases call <;> obtain ⟨output, _, rfl⟩ := mutation_eq_ok.mp h <;> exact fun h ↦ nomatch h

end Call

/-! ## Atomicity -/

/-- What a record did to the tap: nothing where there is none, an append where there
is room, and no change to what was already sent. -/
theorem tapEvent_of_room {tap : EventTap V HE} (event : TemporalEvent V HE)
    (ho : tap.channel.closed = false) (hr : tap.channel.queue.length < tap.channel.capacity) :
    ∃ tap', tapEvent (some tap) event = some tap' ∧
      tap'.channel.queue = tap.channel.queue ++ [event] ∧ tap'.warnings = tap.warnings := by
  obtain ⟨channel, hc, hq⟩ := Channel.trySend_of_room ho hr event
  refine ⟨{ tap with channel := channel }, ?_, hq, rfl⟩
  rw [tapEvent, Option.map_some, hc]

/-- An event that is mirrored to a tap is sent, or dropped with a warning. -/
theorem tapEvent_cases {tap tap' : EventTap V HE} {event : TemporalEvent V HE}
    (h : tapEvent (some tap) event = some tap') :
    (tap'.channel.queue = tap.channel.queue ++ [event] ∧ tap'.warnings = tap.warnings) ∨
      (tap'.channel = tap.channel ∧
        ∃ reason, tap'.warnings = tap.warnings ++ [(reason, event.eventType)]) := by
  rw [tapEvent, Option.map_some, Option.some.injEq] at h
  subst h
  cases hs : tap.channel.trySend event with
  | ok channel => exact Or.inl ⟨Channel.trySend_ok hs, rfl⟩
  | error reason => exact Or.inr ⟨rfl, reason, rfl⟩

/-- **Mutation atomicity.**  A call that returns an error leaves the whole value as it
was.  A call that returns a value ticks the clock once, appends one event with the
ticked timestamp, and sends that event to an open tap with room. -/
theorem mutate_atomic [Hypergraph G V HE E] [AtomicHypergraph G] (call : Call V HE E)
    (self self' : TemporalHypergraph G V HE) :
    (∀ error, TemporalHypergraph.mutate call.mutation self = .error (.err error) self' →
      self' = self) ∧
    (∀ value, TemporalHypergraph.mutate call.mutation self = .ok value self' →
      ∃ event, event.timestamp = self.clock.tick.1 ∧ self'.clock = self.clock.tick.2 ∧
        self'.events = self.events.append event ∧
        (self.eventTap = none → self'.eventTap = none) ∧
        ∀ tap, self.eventTap = some tap → tap.channel.closed = false →
          tap.channel.queue.length < tap.channel.capacity →
          ∃ tap', self'.eventTap = some tap' ∧
            tap'.channel.queue = tap.channel.queue ++ [event]) := by
  refine ⟨fun error h ↦ ?_, fun value h ↦ ?_⟩
  · rcases TemporalHypergraph.runJob_eq_error (TemporalHypergraph.mutate_eq_error.mp h) with
      ⟨_, _, rfl⟩ | ⟨graph, hj, ⟨_, _, rfl⟩ | ⟨hp, _⟩⟩
    · rfl
    · rw [call.atomic self.graph _ graph hj]
    · cases hp
  · obtain ⟨_, finish, graph, hm, _, rfl⟩ := TemporalHypergraph.mutate_eq_ok.mp h
    refine ⟨(finish self.clock.current).1, call.timestamp_finish hm _, rfl, rfl, ?_, ?_⟩
    · intro hn
      change tapEvent self.eventTap _ = none
      rw [hn, tapEvent, Option.map_none]
    · intro tap ht ho hr
      obtain ⟨tap', htap, hq, _⟩ := tapEvent_of_room (finish self.clock.current).1 ho hr
      exact ⟨tap', by rw [← htap, ← ht]; rfl, hq⟩

/-- A vertex added with a tap of one place installed, and a removal that fails. -/
theorem mutate_atomic_with_a_tap :
    let self := (TemporalHypergraph.new :
      TemporalHypergraph (MapGraph Nat Nat) Nat Nat).withEventTap (Channel.new 1)
    (∀ self', TemporalHypergraph.mutate (Call.removeVertex 3).mutation self =
      .error (.err (.hypergraph (.vertexNotFound 3))) self' → self' = self) ∧
    ∃ self' event, TemporalHypergraph.mutate (Call.addVertex 5).mutation self = .ok 0 self' ∧
      self'.events = self.events.append event ∧
      ∃ tap', self'.eventTap = some tap' ∧ tap'.channel.queue = [event] := by
  intro self
  have hok : TemporalHypergraph.mutate (Call.addVertex 5).mutation self =
    .ok 0 (self.recorded (Hypergraph.addVertex 5 self.graph).2 (.vertexAdded 0 0 5)) := rfl
  refine ⟨fun self' ↦ (mutate_atomic (.removeVertex 3) self self').1 _, ?_⟩
  obtain ⟨event, _, _, hevents, _, htap⟩ := (mutate_atomic (.addVertex 5) self _).2 _ hok
  exact ⟨_, event, hok, hevents, htap _ rfl rfl Nat.zero_lt_one⟩

end Koalisi.Topology
