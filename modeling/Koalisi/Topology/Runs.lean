import Koalisi.Topology.Calls
import Koalisi.Topology.History

/-!
# Runs through one value

An operation is a mutation call or a snapshot, and a run is a list of operations
issued one after the other.  Some of them return errors and one may panic; the run
goes on, with the graph lock poisoned if need be.  A run stops where the event log
has no room left: a `Vec` holds at most `isize::MAX` elements, and a push beyond
that aborts.

`Op.apply_cases` says what one operation can do: leave graph, log, clock and tap
alone, or record one event that describes what it did to the graph.  What holds
of every run follows from it by `run_induction`, and is collected in `Coherent`:
the log is a history leading to the contents of the graph, and events are stamped
with their positions.
-/

namespace Koalisi.Topology

open Koalisi.Lib Koalisi.Lib.Fallible Koalisi.Topology.Hypergraph

variable {G V HE E T R : Type}

/-! ## What a successful call recorded -/

theorem Job.write_eq_ok {x : EStateM E G T} {g g' : G} {a : T} :
    Job.write x g = .ok a g' ↔ x g = .ok a g' :=
  mapError_eq_ok

theorem bind_read_eq_ok {f : G → Except E T} {k : T → Job G E R} {g g' : G} {b : R} :
    (Job.read f >>= k) g = .ok b g' ↔ ∃ a, f g = .ok a ∧ k a g = .ok b g' := by
  rw [bind_eq_ok]
  constructor
  · rintro ⟨a, t, hr, hk⟩
    obtain ⟨ha, rfl⟩ := look_eq_ok.mp (mapError_eq_ok.mp hr)
    exact ⟨a, ha, hk⟩
  · rintro ⟨a, ha, hk⟩
    exact ⟨a, g, mapError_eq_ok.mpr (look_eq_ok.mpr ⟨ha, rfl⟩), hk⟩

theorem bind_write_eq_ok {x : EStateM E G T} {k : T → Job G E R} {g g' : G} {b : R} :
    (Job.write x >>= k) g = .ok b g' ↔ ∃ a g₁, x g = .ok a g₁ ∧ k a g₁ = .ok b g' := by
  simp only [bind_eq_ok, Job.write_eq_ok]

theorem bind_pureTry_eq_ok {x : Except (Fault E) T} {k : T → Job G E R} {g g' : G} {b : R} :
    (Job.pureTry x >>= k) g = .ok b g' ↔ ∃ a, x = .ok a ∧ k a g = .ok b g' := by
  rw [bind_eq_ok]
  constructor
  · rintro ⟨a, t, hr, hk⟩
    obtain ⟨ha, rfl⟩ := look_eq_ok.mp hr
    exact ⟨a, ha, hk⟩
  · rintro ⟨a, ha, hk⟩
    exact ⟨a, g, look_eq_ok.mpr ⟨ha, rfl⟩, hk⟩

/-- A job that reads, writes, and returns. -/
theorem read_write_eq_ok {f : G → Except E T} {x : T → EStateM E G R} {T' : Type}
    {r : T → R → T'} {g g' : G} {b : T'}
    (h : (do let a ← Job.read f; let c ← Job.write (x a); return r a c : Job G E T') g = .ok b g') :
    ∃ a c, f g = .ok a ∧ x a g = .ok c g' ∧ r a c = b := by
  obtain ⟨a, ha, hk⟩ := bind_read_eq_ok.mp h
  obtain ⟨c, g₁, hc, hp⟩ := bind_write_eq_ok.mp hk
  obtain ⟨hr, rfl⟩ := pure_eq_ok.mp hp
  exact ⟨a, c, ha, hc, hr⟩

section Contents

variable [Hypergraph G V HE E]

theorem state_vertices_eq_some {g : G} {v : VertexIndex} {w : V} :
    (state g).vertices v = some w ↔ getVertexWeight v g = .ok w := by
  simp only [state]
  cases getVertexWeight v g <;> simp

theorem state_hyperedges_eq_some {g : G} {h : HyperedgeIndex} {vs : List VertexIndex} {w : HE} :
    (state g).hyperedges h = some (vs, w) ↔
      getHyperedgeVertices h g = .ok vs ∧ getHyperedgeWeight h g = .ok w := by
  simp only [state]
  cases getHyperedgeVertices h g <;> cases getHyperedgeWeight h g <;> simp

/-- What a call clears, if it is a clear. -/
def Call.clears : Call V HE E → Option TemporalEvent.Scope
  | .clearHyperedges => some .hyperedges
  | .clear => some .graph
  | _ => none

/-- Clears record clears, and nothing else does. -/
theorem Call.clears_finish (call : Call V HE E) {g g' : G}
    {finish : Timestamp → TemporalEvent V HE × call.Reply}
    (h : (call.mutation : Mutation G V HE E call.Reply) g = .ok finish g')
    (timestamp : Timestamp) : (finish timestamp).1.clears = call.clears := by
  cases call <;> obtain ⟨output, _, rfl⟩ := mutation_eq_ok.mp h <;> rfl

variable [LawfulHypergraph G]

theorem state_hyperedges_of_vertices {g : G} {h : HyperedgeIndex} {vs : List VertexIndex}
    (hvs : getHyperedgeVertices h g = .ok vs) : ∃ w, (state g).hyperedges h = some (vs, w) := by
  obtain ⟨w, hw⟩ := (LawfulHypergraph.readable_iff h g).mp ⟨vs, hvs⟩
  exact ⟨w, by simp only [state, hvs, hw]⟩

theorem state_hyperedges_of_weight {g : G} {h : HyperedgeIndex} {w : HE}
    (hw : getHyperedgeWeight h g = .ok w) : ∃ vs, (state g).hyperedges h = some (vs, w) := by
  obtain ⟨vs, hvs⟩ := (LawfulHypergraph.readable_iff h g).mpr ⟨w, hw⟩
  exact ⟨vs, by simp only [state, hvs, hw]⟩

/-- Contents whose members were set hold the members they were set to. -/
theorem members_of_setMembers {g : G} {s : GraphState V HE} {h : HyperedgeIndex}
    {vs nvs : List VertexIndex} (hs : state g = s.setMembers h vs)
    (hr : getHyperedgeVertices h g = .ok nvs) : nvs = vs ∧ ∃ p, s.hyperedges h = some p := by
  obtain ⟨w, hw⟩ := state_hyperedges_of_vertices hr
  rw [hs] at hw
  change (if h = h then (s.hyperedges h).map fun p ↦ (vs, p.2) else _) = _ at hw
  rw [if_pos rfl, Option.map_eq_some_iff] at hw
  obtain ⟨p, hp, he⟩ := hw
  exact ⟨(congrArg Prod.fst he).symm, p, hp⟩

theorem sliceFromOne_ok {hes sources : List HyperedgeIndex}
    (h : (TemporalHypergraph.sliceFromOne hes : Except (Fault E) _) = .ok sources) :
    sources = hes.tail := by
  unfold TemporalHypergraph.sliceFromOne at h
  split at h
  · cases h
    exact List.drop_one
  · cases h

/-- The event of a successful call is legal, and describes what the call did. -/
theorem Call.effect_finish (call : Call V HE E) {g g' : G}
    {finish : Timestamp → TemporalEvent V HE × call.Reply}
    (h : (call.mutation : Mutation G V HE E call.Reply) g = .ok finish g')
    (timestamp : Timestamp) : (finish timestamp).1.Legal (state g) ∧
      state g' = (finish timestamp).1.effect (state g) := by
  cases call with
  | addVertex w =>
      obtain ⟨v, hj, rfl⟩ := mutation_eq_ok.mp h
      cases hj
      exact ⟨trivial, LawfulHypergraph.addVertex_ok w g _ _ rfl⟩
  | removeVertex v =>
      obtain ⟨w, hj, rfl⟩ := mutation_eq_ok.mp h
      obtain ⟨_, _, hr, hw, rfl⟩ := read_write_eq_ok hj
      exact ⟨state_vertices_eq_some.mpr hr, LawfulHypergraph.removeVertex_ok v g g' hw⟩
  | updateVertexWeight v w =>
      obtain ⟨old, hj, rfl⟩ := mutation_eq_ok.mp h
      obtain ⟨_, _, hr, hw, rfl⟩ := read_write_eq_ok hj
      exact ⟨state_vertices_eq_some.mpr hr, LawfulHypergraph.updateVertexWeight_ok v w g g' hw⟩
  | addHyperedge vs w =>
      obtain ⟨he, hj, rfl⟩ := mutation_eq_ok.mp h
      exact ⟨trivial, LawfulHypergraph.addHyperedge_ok vs w g g' he (Job.write_eq_ok.mp hj)⟩
  | removeHyperedge he =>
      obtain ⟨_, hj, rfl⟩ := mutation_eq_ok.mp h
      obtain ⟨vs, hvs, hk⟩ := bind_read_eq_ok.mp hj
      obtain ⟨w, _, hw, hx, rfl⟩ := read_write_eq_ok hk
      exact ⟨state_hyperedges_eq_some.mpr ⟨hvs, hw⟩,
        LawfulHypergraph.removeHyperedge_ok he g g' hx⟩
  | updateHyperedgeWeight he w =>
      obtain ⟨old, hj, rfl⟩ := mutation_eq_ok.mp h
      obtain ⟨_, _, hr, hw, rfl⟩ := read_write_eq_ok hj
      exact ⟨state_hyperedges_of_weight hr,
        LawfulHypergraph.updateHyperedgeWeight_ok he w g g' hw⟩
  | updateHyperedgeVertices he vs =>
      obtain ⟨old, hj, rfl⟩ := mutation_eq_ok.mp h
      obtain ⟨_, _, hr, hw, rfl⟩ := read_write_eq_ok hj
      exact ⟨state_hyperedges_of_vertices hr,
        LawfulHypergraph.updateHyperedgeVertices_ok he vs g g' hw⟩
  | updateHyperedgeVerticesTry he mutator =>
      obtain ⟨_, hj, rfl⟩ := mutation_eq_ok.mp h
      obtain ⟨old, hr, hk⟩ := bind_read_eq_ok.mp hj
      obtain ⟨new, _, hk⟩ := bind_pureTry_eq_ok.mp hk
      obtain ⟨_, g₁, hw, hp⟩ := bind_write_eq_ok.mp hk
      obtain ⟨rfl, rfl⟩ := pure_eq_ok.mp hp
      exact ⟨state_hyperedges_of_vertices hr,
        LawfulHypergraph.updateHyperedgeVertices_ok he new g g₁ hw⟩
  | reverseHyperedge he =>
      obtain ⟨_, hj, rfl⟩ := mutation_eq_ok.mp h
      obtain ⟨old, hr, hk⟩ := bind_read_eq_ok.mp hj
      obtain ⟨_, g₁, hw, hk⟩ := bind_write_eq_ok.mp hk
      obtain ⟨new, hn, hp⟩ := bind_read_eq_ok.mp hk
      obtain ⟨rfl, rfl⟩ := pure_eq_ok.mp hp
      obtain ⟨vs, hs⟩ := LawfulHypergraph.reverseHyperedge_ok he g g₁ hw
      obtain ⟨rfl, _⟩ := members_of_setMembers hs hn
      exact ⟨state_hyperedges_of_vertices hr, hs⟩
  | joinHyperedges hes =>
      obtain ⟨_, hj, rfl⟩ := mutation_eq_ok.mp h
      obtain ⟨target, g₁, hw, hk⟩ := bind_write_eq_ok.mp hj
      obtain ⟨sources, hs, hk⟩ := bind_pureTry_eq_ok.mp hk
      obtain ⟨new, hn, hp⟩ := bind_read_eq_ok.mp hk
      obtain ⟨rfl, rfl⟩ := pure_eq_ok.mp hp
      obtain ⟨_, vs, hst⟩ := LawfulHypergraph.joinHyperedges_ok hes g g₁ target hw
      obtain ⟨rfl, p, hp⟩ := members_of_setMembers hst hn
      rw [← sliceFromOne_ok hs] at hst hp
      -- The target is no source that is dropped, so it was there before the join.
      change (if target ∈ sources.filter (· ≠ target) then none else _) = some p at hp
      rw [if_neg fun hm ↦ by simpa using List.of_mem_filter hm] at hp
      exact ⟨⟨p, hp⟩, hst⟩
  | contractHyperedgeVertices he vs v =>
      obtain ⟨_, hj, rfl⟩ := mutation_eq_ok.mp h
      obtain ⟨_, _, hr, hw, rfl⟩ := read_write_eq_ok hj
      exact ⟨state_hyperedges_of_vertices hr,
        LawfulHypergraph.contractHyperedgeVertices_ok he vs v g g' _ hw⟩
  | clearHyperedges =>
      obtain ⟨_, hj, rfl⟩ := mutation_eq_ok.mp h
      cases hj
      exact ⟨trivial, LawfulHypergraph.state_clearHyperedges g⟩
  | clear =>
      obtain ⟨_, hj, rfl⟩ := mutation_eq_ok.mp h
      cases hj
      exact ⟨trivial, LawfulHypergraph.state_clear g⟩

/-- A join of pairwise distinct hyperedges, or any call that is no join. -/
def Call.JoinsDistinct : Call V HE E → Prop
  | .joinHyperedges indices => indices.Nodup
  | _ => True

/-- A join of distinct hyperedges records a join apart from its target. -/
theorem Call.joinsApart_finish (call : Call V HE E) (hd : call.JoinsDistinct) {g g' : G}
    {finish : Timestamp → TemporalEvent V HE × call.Reply}
    (h : (call.mutation : Mutation G V HE E call.Reply) g = .ok finish g')
    (timestamp : Timestamp) : (finish timestamp).1.JoinsApart := by
  cases call with
  | joinHyperedges hes =>
      obtain ⟨_, hj, rfl⟩ := mutation_eq_ok.mp h
      obtain ⟨target, g₁, hw, hk⟩ := bind_write_eq_ok.mp hj
      obtain ⟨sources, hs, hk⟩ := bind_pureTry_eq_ok.mp hk
      obtain ⟨new, _, hp⟩ := bind_read_eq_ok.mp hk
      obtain ⟨rfl, rfl⟩ := pure_eq_ok.mp hp
      obtain ⟨ht, _⟩ := LawfulHypergraph.joinHyperedges_ok hes g g₁ target hw
      obtain ⟨rest, rfl⟩ := List.head?_eq_some_iff.mp ht
      rw [sliceFromOne_ok hs]
      exact (List.nodup_cons.mp hd).1
  | _ => obtain ⟨output, _, rfl⟩ := mutation_eq_ok.mp h; trivial

end Contents

/-! ## Operations -/

/-- What can be asked of a value: a mutation, or a snapshot. -/
inductive Op (V HE E : Type) where
  | mutate (call : Call V HE E)
  | createSnapshot

namespace Op

/-- The value after an operation, however it ended. -/
def apply [Hypergraph G V HE E] (op : Op V HE E) (self : TemporalHypergraph G V HE) :
    TemporalHypergraph G V HE :=
  match op with
  | .mutate call => finalState (TemporalHypergraph.mutate call.mutation self)
  | .createSnapshot =>
      finalState (TemporalHypergraph.createSnapshot self : EStateM.Result (Fault E) _ _)

/-- What an operation clears, if it is a clear. -/
def clears : Op V HE E → Option TemporalEvent.Scope
  | .mutate call => call.clears
  | .createSnapshot => none

/-- The operation is no join with a repeated index. -/
def JoinsDistinct : Op V HE E → Prop
  | .mutate call => call.JoinsDistinct
  | .createSnapshot => True

end Op

/-- One operation recorded one event, which describes what it did to the graph. -/
structure Records [Hypergraph G V HE E] (before : TemporalHypergraph G V HE)
    (event : TemporalEvent V HE) (after : TemporalHypergraph G V HE) : Prop where
  legal : event.Legal (state before.graph)
  graph : state after.graph = event.effect (state before.graph)
  timestamp : event.timestamp = before.clock.current
  clock : after.clock = before.clock.tick.2
  events : after.events = before.events.append event
  eventTap : after.eventTap = tapEvent before.eventTap event

/-- One operation failed: at most the lock is poisoned now. -/
def Failed (self self' : TemporalHypergraph G V HE) : Prop :=
  self' = self ∨ self' = { self with poisoned := true }

section Operations

variable [Hypergraph G V HE E]

/-- A mutation whose job runs on a sound lock records. -/
theorem apply_recorded {call : Call V HE E} {self : TemporalHypergraph G V HE}
    (hp : self.poisoned = false) {finish : Timestamp → TemporalEvent V HE × call.Reply} {graph : G}
    (h : (call.mutation : Mutation G V HE E call.Reply) self.graph = .ok finish graph) :
    (Op.mutate call).apply self = self.recorded graph (finish self.clock.current).1 :=
  congrArg finalState (TemporalHypergraph.mutate_eq_ok.mpr ⟨hp, finish, graph, h, rfl, rfl⟩)

/-- On a poisoned lock a mutation does nothing. -/
theorem apply_poisoned {call : Call V HE E} {self : TemporalHypergraph G V HE}
    (hp : self.poisoned = true) : (Op.mutate call).apply self = self := by
  have herr : TemporalHypergraph.mutate call.mutation self =
      .error (.err .lockPoisoned) self := TemporalHypergraph.mutate_eq_error.mpr (by
    rw [TemporalHypergraph.runJob, hp, if_pos rfl])
  exact congrArg finalState herr

variable [LawfulHypergraph G]

/-- A mutation that does not return a value failed. -/
theorem failed_of_error {call : Call V HE E} {self self' : TemporalHypergraph G V HE}
    {fault : Fault E} (h : TemporalHypergraph.mutate call.mutation self = .error fault self') :
    Failed self self' := by
  rcases TemporalHypergraph.runJob_eq_error (TemporalHypergraph.mutate_eq_error.mp h) with
    ⟨_, _, rfl⟩ | ⟨graph, hj, ⟨_, _, rfl⟩ | ⟨_, rfl⟩⟩
  · exact Or.inl rfl
  · exact Or.inl (by rw [call.atomic self.graph _ graph hj])
  · exact Or.inr (by rw [call.atomic self.graph _ graph hj])

/-- A mutation that returns a value recorded. -/
theorem records_of_ok {call : Call V HE E} {self self' : TemporalHypergraph G V HE}
    {value : call.Reply} (h : TemporalHypergraph.mutate call.mutation self = .ok value self') :
    ∃ event, Records self event self' ∧ event.clears = call.clears ∧
      (call.JoinsDistinct → event.JoinsApart) := by
  obtain ⟨_, finish, graph, hm, _, rfl⟩ := TemporalHypergraph.mutate_eq_ok.mp h
  obtain ⟨hlegal, heffect⟩ := call.effect_finish hm self.clock.current
  exact ⟨_, ⟨hlegal, heffect, call.timestamp_finish hm _, rfl, rfl, rfl⟩,
    call.clears_finish hm _, fun hd ↦ call.joinsApart_finish hd hm _⟩

/-- What one operation can do. -/
theorem Op.apply_cases (op : Op V HE E) (self : TemporalHypergraph G V HE) :
    Failed self (op.apply self) ∨ ∃ event, Records self event (op.apply self) ∧
      event.clears = op.clears ∧ (op.JoinsDistinct → event.JoinsApart) := by
  cases op with
  | mutate call =>
      simp only [Op.apply]
      cases h : TemporalHypergraph.mutate call.mutation self with
      | ok value self' => exact Or.inr (records_of_ok h)
      | error fault self' => exact Or.inl (failed_of_error h)
  | createSnapshot =>
      exact Or.inr ⟨.snapshotMarker self.clock.current self.snapshotCounter,
        ⟨trivial, rfl, rfl, rfl, rfl, rfl⟩, rfl, fun _ ↦ trivial⟩

end Operations

/-! ## Runs -/

/-- The most elements a `Vec` holds, `isize::MAX`. -/
def vecMax : Nat := 2 ^ 63 - 1

/-- One operation, if the event log has room for what it may record. -/
def step [Hypergraph G V HE E] (self : TemporalHypergraph G V HE) (op : Op V HE E) :
    Option (TemporalHypergraph G V HE) :=
  if self.events.len < vecMax then some (op.apply self) else none

/-- Operations issued one after the other. -/
def run [Hypergraph G V HE E] (ops : List (Op V HE E)) (self : TemporalHypergraph G V HE) :
    Option (TemporalHypergraph G V HE) :=
  ops.foldlM step self

/-- The value a run ends in, wherever the log has room for all of it. -/
def issue [Hypergraph G V HE E] (ops : List (Op V HE E)) (self : TemporalHypergraph G V HE) :
    TemporalHypergraph G V HE :=
  ops.foldl (fun self op ↦ op.apply self) self

/-- A value over a graph, with an event tap or without. -/
def fresh (graph : G) (tap : Option (Channel (TemporalEvent V HE))) :
    TemporalHypergraph G V HE :=
  match tap with
  | some tap => (TemporalHypergraph.wrap graph).withEventTap tap
  | none => TemporalHypergraph.wrap graph

/-- A new value, with an event tap or without. -/
def start [Hypergraph G V HE E] (tap : Option (Channel (TemporalEvent V HE))) :
    TemporalHypergraph G V HE :=
  fresh Hypergraph.new tap

section Runs

variable [Hypergraph G V HE E]

theorem run_append (ops₁ ops₂ : List (Op V HE E)) (self : TemporalHypergraph G V HE) :
    run (ops₁ ++ ops₂) self = (run ops₁ self).bind (run ops₂) :=
  List.foldlM_append

/-- A run goes on after each of its operations. -/
theorem run_after {self mid fin : TemporalHypergraph G V HE} {ops₁ ops₂ : List (Op V HE E)}
    {op : Op V HE E} (h : run (ops₁ ++ op :: ops₂) self = some fin)
    (hmid : run ops₁ self = some mid) : run ops₂ (op.apply mid) = some fin := by
  rw [run_append, hmid, Option.bind_some] at h
  obtain ⟨after, hafter, hrest⟩ := Option.bind_eq_some_iff.mp h
  unfold step at hafter
  split at hafter
  · cases hafter
    exact hrest
  · cases hafter

theorem run_concat {ops : List (Op V HE E)} {op : Op V HE E}
    {self fin : TemporalHypergraph G V HE} :
    run (ops ++ [op]) self = some fin ↔
      ∃ mid, run ops self = some mid ∧ mid.events.len < vecMax ∧ op.apply mid = fin := by
  rw [run_append, Option.bind_eq_some_iff]
  refine exists_congr fun mid ↦ and_congr_right fun _ ↦ ?_
  change (step mid op).bind (fun s ↦ some s) = some fin ↔ _
  rw [Option.bind_fun_some, step]
  split <;> simp [*]

/-- What holds of the start and is kept by every operation holds of every run. -/
theorem run_induction {self : TemporalHypergraph G V HE}
    {P : List (Op V HE E) → TemporalHypergraph G V HE → Prop} (nil : P [] self)
    (snoc : ∀ ops op mid, run ops self = some mid → mid.events.len < vecMax → P ops mid →
      P (ops ++ [op]) (op.apply mid))
    {ops : List (Op V HE E)} {fin : TemporalHypergraph G V HE} (h : run ops self = some fin) :
    P ops fin := by
  induction ops using List.reverseRecOn generalizing fin with
  | nil =>
      cases h
      exact nil
  | append_singleton ops op ih =>
      obtain ⟨mid, hmid, hroom, rfl⟩ := run_concat.mp h
      exact snoc ops op mid hmid hroom (ih hmid)

/-- The clock counts the events, and an event is stamped with the number of events before
it. -/
structure Stamped (value : TemporalHypergraph G V HE) : Prop where
  clock : value.clock.current.val = value.events.len
  stamps : ∀ fs e gs, value.events.events = fs ++ e :: gs → e.timestamp.val = fs.length

theorem stamped_fresh (graph : G) (tap : Option (Channel (TemporalEvent V HE))) :
    Stamped (fresh graph tap) := by
  have hwrap : Stamped (TemporalHypergraph.wrap graph : TemporalHypergraph G V HE) :=
    ⟨rfl, fun fs e gs hs ↦ absurd hs.symm (by simp [TemporalHypergraph.wrap])⟩
  cases tap with
  | none => exact hwrap
  | some tap => exact ⟨hwrap.clock, hwrap.stamps⟩

theorem Stamped.failed {self self' : TemporalHypergraph G V HE} (hs : Stamped self)
    (h : Failed self self') : Stamped self' := by
  rcases h with rfl | rfl
  · exact hs
  · exact ⟨hs.clock, hs.stamps⟩

theorem Stamped.records {self self' : TemporalHypergraph G V HE} {event : TemporalEvent V HE}
    (hc : Stamped self) (hroom : self.events.len < vecMax) (h : Records self event self') :
    Stamped self' where
  clock := by
    have hlt : self.clock.current.val < 2 ^ 64 - 1 := by
      rw [hc.clock]
      unfold vecMax at hroom
      omega
    rw [h.clock, Clock.tick_val hlt, hc.clock, h.events]
    simp [EventLog.len]
  stamps fs e gs hs := by
    rw [h.events, EventLog.events_append] at hs
    -- The event is the new one, or it was there before.
    rcases List.eq_nil_or_concat gs with rfl | ⟨gs, e', rfl⟩
    · obtain ⟨hfs, he⟩ := List.append_inj' hs rfl
      cases he
      rw [h.timestamp, hc.clock, ← hfs]
      rfl
    · rw [List.concat_eq_append, ← List.cons_append, ← List.append_assoc] at hs
      exact hc.stamps fs e gs (List.append_inj' hs rfl).1

/-- The log splits at every instant `t`, after its first `t + 1` events. -/
theorem Stamped.splitsAt_take {value : TemporalHypergraph G V HE} (hc : Stamped value)
    (t : Timestamp) : SplitsAt value.events t (value.events.events.take (t.val + 1)) where
  split := by
    refine ⟨_, (List.take_append_drop _ _).symm, fun e he ↦ ?_⟩
    obtain ⟨fs, gs, hd⟩ := List.append_of_mem he
    have hev : value.events.events = (value.events.events.take (t.val + 1) ++ fs) ++ e :: gs := by
      rw [List.append_assoc, ← hd, List.take_append_drop]
    have hlen : t.val + 1 < value.events.events.length := by
      have := congrArg List.length hd
      rw [List.length_drop, List.length_append, List.length_cons] at this
      omega
    rw [Fin.lt_def, hc.stamps _ e gs hev, List.length_append,
      List.length_take_of_le (Nat.le_of_lt hlen)]
    omega
  early e he := by
    obtain ⟨fs, gs, ht⟩ := List.append_of_mem he
    have hev : value.events.events =
        fs ++ e :: (gs ++ value.events.events.drop (t.val + 1)) := by
      rw [← List.cons_append, ← List.append_assoc, ← ht, List.take_append_drop]
    have hlen := congrArg List.length ht
    rw [List.length_take, List.length_append, List.length_cons] at hlen
    rw [Fin.le_def, hc.stamps fs e _ hev]
    omega

/-- The events come one after the other. -/
theorem Stamped.sorted {value : TemporalHypergraph G V HE} (hc : Stamped value) :
    value.events.events.Pairwise fun e f ↦ e.timestamp < f.timestamp := by
  refine List.pairwise_iff_getElem.mpr fun i j hi hj hij ↦ ?_
  have hstamp : ∀ (i : Nat) (hi : i < value.events.events.length),
      value.events.events[i].timestamp.val = i := by
    intro i hi
    have hsplit : value.events.events = value.events.events.take i ++
        value.events.events[i] :: value.events.events.drop (i + 1) := by
      rw [List.getElem_cons_drop, List.take_append_drop]
    rw [hc.stamps _ _ _ hsplit, List.length_take_of_le (Nat.le_of_lt hi)]
  rw [Fin.lt_def, hstamp i hi, hstamp j hj]
  exact hij

/-- What holds in every state of a run: the log is a history that leads to the contents
of the graph, the clock counts the events, and an event is stamped with the number of
events before it. -/
structure Coherent (value : TemporalHypergraph G V HE) : Prop where
  history : History value.events.events (state value.graph)
  clock : value.clock.current.val = value.events.len
  stamps : ∀ fs e gs, value.events.events = fs ++ e :: gs → e.timestamp.val = fs.length

theorem Coherent.stamped {value : TemporalHypergraph G V HE} (hc : Coherent value) :
    Stamped value :=
  ⟨hc.clock, hc.stamps⟩

theorem Coherent.failed {self self' : TemporalHypergraph G V HE} (hc : Coherent self)
    (h : Failed self self') : Coherent self' := by
  rcases h with rfl | rfl
  · exact hc
  · exact ⟨hc.history, hc.clock, hc.stamps⟩

theorem Coherent.records {self self' : TemporalHypergraph G V HE} {event : TemporalEvent V HE}
    (hc : Coherent self) (hroom : self.events.len < vecMax) (h : Records self event self') :
    Coherent self' where
  history := by
    rw [h.events, EventLog.events_append, h.graph]
    exact hc.history.snoc h.legal
  clock := (hc.stamped.records hroom h).clock
  stamps := (hc.stamped.records hroom h).stamps

/-- An event after another one in the log is later. -/
theorem Coherent.not_le_of_later {value : TemporalHypergraph G V HE} (hc : Coherent value)
    {es fs : List (TemporalEvent V HE)} {e f : TemporalEvent V HE}
    (h : value.events.events = es ++ e :: fs) (hf : f ∈ fs) : ¬ f.timestamp ≤ e.timestamp := by
  obtain ⟨fs₁, fs₂, rfl⟩ := List.append_of_mem hf
  have hlater := hc.stamps (es ++ e :: fs₁) f fs₂ (by rw [h, List.append_assoc]; rfl)
  rw [Fin.le_def, hc.stamps es e _ h, hlater, List.length_append, List.length_cons]
  omega

/-- The log splits at the timestamp of each of its events, right after that event. -/
theorem Coherent.splitsAt {value : TemporalHypergraph G V HE} (hc : Coherent value)
    {es fs : List (TemporalEvent V HE)} {e : TemporalEvent V HE}
    (h : value.events.events = es ++ e :: fs) :
    SplitsAt value.events e.timestamp (es ++ [e]) := by
  have hs := hc.stamped.splitsAt_take e.timestamp
  rw [hc.stamps es e fs h, h, List.take_length_add_append] at hs
  exact hs

/-- The log splits at every instant from an event on, somewhere after that event. -/
theorem Coherent.splitsAt_after {value : TemporalHypergraph G V HE} (hc : Coherent value)
    {es fs : List (TemporalEvent V HE)} {e : TemporalEvent V HE}
    (h : value.events.events = es ++ e :: fs) {t : Timestamp} (ht : e.timestamp ≤ t) :
    ∃ fs₁ fs₂, fs = fs₁ ++ fs₂ ∧ SplitsAt value.events t (es ++ e :: fs₁) := by
  have hs := hc.stamped.splitsAt_take t
  rw [Fin.le_def, hc.stamps es e fs h] at ht
  rw [h, show t.val + 1 = es.length + ((t.val - es.length) + 1) by omega,
    List.take_length_add_append, List.take_succ_cons] at hs
  exact ⟨_, _, (List.take_append_drop (t.val - es.length) fs).symm, hs⟩

variable [LawfulHypergraph G]

theorem Stamped.run {self fin : TemporalHypergraph G V HE} (hc : Stamped self)
    {ops : List (Op V HE E)} (h : run ops self = some fin) : Stamped fin := by
  refine run_induction (P := fun _ fin ↦ Stamped fin) hc (fun _ op mid _ hroom ih ↦ ?_) h
  rcases op.apply_cases mid with h | ⟨event, h, _⟩
  · exact ih.failed h
  · exact ih.records hroom h

theorem coherent_start (tap : Option (Channel (TemporalEvent V HE))) :
    Coherent (start tap : TemporalHypergraph G V HE) where
  history := by
    have hnew : History [] (state (Hypergraph.new : G)) := by
      rw [LawfulHypergraph.state_new]
      exact History.nil
    cases tap with
    | none => exact hnew
    | some tap => exact hnew
  clock := (stamped_fresh _ tap).clock
  stamps := (stamped_fresh _ tap).stamps

theorem Coherent.apply {self : TemporalHypergraph G V HE} (hc : Coherent self)
    (hroom : self.events.len < vecMax) (op : Op V HE E) : Coherent (op.apply self) := by
  rcases op.apply_cases self with h | ⟨event, h, _⟩
  · exact hc.failed h
  · exact hc.records hroom h

theorem Coherent.run {self fin : TemporalHypergraph G V HE} (hc : Coherent self)
    {ops : List (Op V HE E)} (h : run ops self = some fin) : Coherent fin :=
  run_induction (P := fun _ fin ↦ Coherent fin) hc
    (fun _ op _ _ hroom ih ↦ ih.apply hroom op) h

/-- The log only grows. -/
theorem run_events {self fin : TemporalHypergraph G V HE} {ops : List (Op V HE E)}
    (h : run ops self = some fin) : ∃ es, fin.events.events = self.events.events ++ es := by
  refine run_induction (P := fun _ fin ↦ ∃ es, fin.events.events = self.events.events ++ es)
    ⟨[], (List.append_nil _).symm⟩ (fun ops op mid _ _ ⟨es, hes⟩ ↦ ?_) h
  rcases op.apply_cases mid with h | ⟨event, h, _⟩
  · rcases h with h | h <;> rw [h] <;> exact ⟨es, hes⟩
  · exact ⟨es ++ [event], by rw [h.events, EventLog.events_append, hes, List.append_assoc]⟩

/-- Every event recorded during a run was recorded by one of its operations. -/
theorem run_event {self fin : TemporalHypergraph G V HE} {ops : List (Op V HE E)}
    (h : run ops self = some fin) {fs gs : List (TemporalEvent V HE)} {e : TemporalEvent V HE}
    (hs : fin.events.events = fs ++ e :: gs) (hnew : self.events.len ≤ fs.length) :
    ∃ ops₁ op ops₂ mid, ops = ops₁ ++ op :: ops₂ ∧ run ops₁ self = some mid ∧
      mid.events.events = fs ∧ Records mid e (op.apply mid) ∧ e.clears = op.clears ∧
      (op.JoinsDistinct → e.JoinsApart) := by
  revert fs e gs
  refine run_induction (P := fun ops fin ↦ ∀ {fs gs : List (TemporalEvent V HE)}
    {e : TemporalEvent V HE}, fin.events.events = fs ++ e :: gs → self.events.len ≤ fs.length →
      ∃ ops₁ op ops₂ mid, ops = ops₁ ++ op :: ops₂ ∧ run ops₁ self = some mid ∧
        mid.events.events = fs ∧ Records mid e (op.apply mid) ∧ e.clears = op.clears ∧
        (op.JoinsDistinct → e.JoinsApart)) ?_ ?_ h
  · intro fs gs e hs hnew
    rw [EventLog.len, hs, List.length_append, List.length_cons] at hnew
    omega
  · intro ops op mid hmid _ ih fs gs e hs hnew
    -- An event that was there before the last operation was recorded earlier.
    have hold : ∀ gs', mid.events.events = fs ++ e :: gs' → ∃ ops₁ op' ops₂ mid',
        ops ++ [op] = ops₁ ++ op' :: ops₂ ∧ run ops₁ self = some mid' ∧
          mid'.events.events = fs ∧ Records mid' e (op'.apply mid') ∧ e.clears = op'.clears ∧
          (op'.JoinsDistinct → e.JoinsApart) := by
      intro gs' hs'
      obtain ⟨ops₁, op', ops₂, mid', rfl, hrest⟩ := ih hs' hnew
      exact ⟨ops₁, op', ops₂ ++ [op], mid', by simp, hrest⟩
    rcases op.apply_cases mid with hf | ⟨event, hr, hfacts⟩
    · refine hold gs ?_
      rcases hf with hf | hf <;> rw [hf] at hs <;> exact hs
    · rw [hr.events, EventLog.events_append] at hs
      rcases List.eq_nil_or_concat gs with rfl | ⟨gs, e', rfl⟩
      · obtain ⟨hfs, he⟩ := List.append_inj' hs rfl
        cases he
        exact ⟨ops, op, [], mid, rfl, hmid, hfs, hr, hfacts⟩
      · rw [List.concat_eq_append, ← List.cons_append, ← List.append_assoc] at hs
        exact hold gs (List.append_inj' hs rfl).1

/-- Over a new value the run has recorded every event of the log. -/
theorem run_fresh_event {graph : G} {tap : Option (Channel (TemporalEvent V HE))}
    {fin : TemporalHypergraph G V HE} {ops : List (Op V HE E)}
    (h : run ops (fresh graph tap) = some fin) {fs gs : List (TemporalEvent V HE)}
    {e : TemporalEvent V HE} (hs : fin.events.events = fs ++ e :: gs) :
    ∃ ops₁ op ops₂ mid, ops = ops₁ ++ op :: ops₂ ∧ run ops₁ (fresh graph tap) = some mid ∧
      mid.events.events = fs ∧ Records mid e (op.apply mid) ∧ e.clears = op.clears ∧
      (op.JoinsDistinct → e.JoinsApart) := by
  refine run_event h hs ?_
  cases tap <;> exact Nat.zero_le _

end Runs

end Koalisi.Topology
