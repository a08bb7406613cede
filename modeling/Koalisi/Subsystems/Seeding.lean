import Koalisi.Subsystems.Outlets
import Koalisi.Topology.Comings
import Koalisi.Topology.Trajectories

/-!
# Seeding a feedback store

`seed_feedback_history` goes through some agents.  It looks up the id of each, reads the coalition
history of the agent from the log, and adds the number of its episodes to the store.  Between these
steps others may change the hypergraph, and use the store.

So the id and the episodes of an agent are those of two moments of the call, and the episodes lie
between those at the start and those at the end.  What is in the store is what was there, what was
seeded, and what the others have done, in whatever order (`seeding_adds_episodes`).  When an agent
is not found the call fails, and the agents before it stay seeded.
-/

namespace Koalisi.Subsystems

open Koalisi.Algorithms Koalisi.Decision Koalisi.Lib Koalisi.Topology
open Koalisi.Harness (CapabilityAgent)
open Koalisi.Topology.CoalitionManager (addAgent formCoalition getAgent agentCoalitionHistory)

variable {G V HE E F : Type}

/-! ## The code -/

/-- What others do to the store. -/
inductive StoreUse (F : Type) where
  | record (members : List Nat) (value : F)
  | addHistory (agentId : Nat) (episodes : U64)

/-- Where the loop stands. -/
inductive SeedStage (E : Type) where
  /-- The next agent is looked up. -/
  | looking
  /-- The log is read for an agent that was found. -/
  | reading (idx : VertexIndex) (id : Nat)
  /-- The episodes of an agent are added to the store. -/
  | adding (idx : VertexIndex) (id episodes : Nat)
  | finished (result : Except (Fault E) Unit)

/-- An agent that was seeded, the id it was found under, and its episodes. -/
structure Seed where
  idx : VertexIndex
  id : Nat
  episodes : Nat
deriving DecidableEq, Repr

/-- A call of `seed_feedback_history`, with the hypergraph and the store that others use too. -/
structure Seeding (G V HE E F : Type) where
  graph : TemporalHypergraph G V HE
  store : StoreInner F
  todo : List VertexIndex
  stage : SeedStage E
  seeded : List Seed
  /-- What others have done to the hypergraph. -/
  ops : List (Op V HE E)
  /-- What others have done to the store. -/
  uses : List (StoreUse F)

namespace StoreUse

def apply [FloatingPoint F] (inner : StoreInner F) : StoreUse F → StoreInner F
  | .record members value => inner.recordOutcome members value
  | .addHistory agentId episodes => inner.addHistory agentId episodes

/-- So much is added to the history of an agent. -/
def history [FloatingPoint F] (id : Nat) : StoreUse F → Nat
  | .record members value => recorded members value id
  | .addHistory agentId episodes => if id = agentId then episodes.val else 0

/-- And so much to its failures. -/
def failures [FloatingPoint F] (failureThreshold : F) (id : Nat) : StoreUse F → Nat
  | .record members value => if value < failureThreshold then recorded members value id else 0
  | .addHistory _ _ => 0

end StoreUse

namespace Seeding

/-- What can happen. -/
inductive Action (V HE E F : Type) where
  /-- The call takes a step. -/
  | seed
  /-- Another user of the hypergraph changes it. -/
  | change (op : Op V HE E)
  /-- Another handle of the store is used. -/
  | use (use : StoreUse F)

variable [Hypergraph G V HE E] [AgentCapabilities V] [FloatingPoint F]

def start (graph : TemporalHypergraph G V HE) (store : StoreInner F) (agents : List VertexIndex) :
    Seeding G V HE E F :=
  { graph, store, todo := agents, stage := .looking, seeded := [], ops := [], uses := [] }

/-- A step of the loop. -/
def move (s : Seeding G V HE E F) : Option (Seeding G V HE E F) :=
  match s.stage with
  | .looking =>
      match s.todo with
      | [] => some { s with stage := .finished (.ok ()) }
      | idx :: todo =>
          match getAgent idx s.graph with
          | .ok weight _ =>
              some { s with todo, stage := .reading idx (AgentCapabilities.agentId weight) }
          -- the agents before it stay seeded
          | .error fault _ => some { s with stage := .finished (.error fault) }
  | .reading idx id =>
      some { s with stage := .adding idx id (agentCoalitionHistory s.graph.events idx).length }
  | .adding idx id episodes =>
      some { s with
        store := s.store.addHistory id (Fin.ofNat _ episodes)
        stage := .looking
        seeded := s.seeded ++ [⟨idx, id, episodes⟩] }
  | .finished _ => none

/-- One action, if it is possible. -/
def step (s : Seeding G V HE E F) : Action V HE E F → Option (Seeding G V HE E F)
  | .seed => s.move
  | .change op => (Topology.step s.graph op).map fun graph ↦ { s with graph, ops := s.ops ++ [op] }
  | .use use => some { s with store := use.apply s.store, uses := s.uses ++ [use] }

def run (actions : List (Action V HE E F)) (s : Seeding G V HE E F) :
    Option (Seeding G V HE E F) :=
  actions.foldlM step s

end Seeding

/-! ## What is added -/

section Counts

variable [FloatingPoint F]

theorem StoreUse.grows (use : StoreUse F) (inner : StoreInner F) (id : Nat) :
    (use.apply inner).failureThreshold = inner.failureThreshold ∧
      Grows (countsOf inner.counts id) (countsOf (use.apply inner).counts id) (use.history id)
        (use.failures inner.failureThreshold id) := by
  cases use with
  | record members value =>
      refine ⟨?_, grows_recordOutcome inner members value id⟩
      change (inner.recordOutcome members value).failureThreshold = _
      rw [StoreInner.recordOutcome]
      split <;> rfl
  | addHistory agentId episodes =>
      have hgrows := grows_addHistory inner agentId episodes.val id
      rw [Fin.ofNat_val_eq_self] at hgrows
      exact ⟨rfl, hgrows⟩

end Counts

/-! ## What stays true -/

namespace Seeding

variable [Hypergraph G V HE E] [AgentCapabilities V] [FloatingPoint F]
variable {graph : TemporalHypergraph G V HE} {store : StoreInner F} {agents : List VertexIndex}
variable {s s' : Seeding G V HE E F} {ops : List (Op V HE E)}

/-- The hypergraph as it was after some of what others have done. -/
def Was (graph : TemporalHypergraph G V HE) (ops : List (Op V HE E))
    (past : TemporalHypergraph G V HE) : Prop :=
  ∃ before, before <+: ops ∧ Topology.run before graph = some past

/-- An agent was found under its id at some moment. -/
def Found (graph : TemporalHypergraph G V HE) (ops : List (Op V HE E)) (idx : VertexIndex)
    (id : Nat) : Prop :=
  ∃ found, Was graph ops found ∧ ∃ weight, getAgent idx found = .ok weight found ∧
    AgentCapabilities.agentId weight = id

/-- At some moment an agent had so many episodes. -/
def Had (graph : TemporalHypergraph G V HE) (ops : List (Op V HE E)) (idx : VertexIndex)
    (episodes : Nat) : Prop :=
  ∃ read, Was graph ops read ∧ episodes = (agentCoalitionHistory read.events idx).length

omit [AgentCapabilities V] in
theorem Was.grow {past : TemporalHypergraph G V HE} (h : Was graph ops past) (op : Op V HE E) :
    Was graph (ops ++ [op]) past := by
  obtain ⟨before, hbefore, hrun⟩ := h
  exact ⟨before, hbefore.trans (List.prefix_append _ _), hrun⟩

theorem Found.grow {idx : VertexIndex} {id : Nat} (h : Found graph ops idx id) (op : Op V HE E) :
    Found graph (ops ++ [op]) idx id := by
  obtain ⟨found, hwas, hfound⟩ := h
  exact ⟨found, hwas.grow op, hfound⟩

omit [AgentCapabilities V] in
theorem Had.grow {idx : VertexIndex} {episodes : Nat} (h : Had graph ops idx episodes)
    (op : Op V HE E) : Had graph (ops ++ [op]) idx episodes := by
  obtain ⟨read, hwas, hread⟩ := h
  exact ⟨read, hwas.grow op, hread⟩

/-- What a stage is about, and what it stands on. -/
def InHand (graph : TemporalHypergraph G V HE) (agents : List VertexIndex)
    (s : Seeding G V HE E F) : Prop :=
  match s.stage with
  | .looking => agents = s.seeded.map Seed.idx ++ s.todo
  | .reading idx id =>
      agents = s.seeded.map Seed.idx ++ idx :: s.todo ∧ Found graph s.ops idx id
  | .adding idx id episodes =>
      agents = s.seeded.map Seed.idx ++ idx :: s.todo ∧ Found graph s.ops idx id ∧
        Had graph s.ops idx episodes
  | .finished (.ok _) => agents = s.seeded.map Seed.idx
  | .finished (.error fault) => ∃ idx todo, agents = s.seeded.map Seed.idx ++ idx :: todo ∧
      ∃ found, Was graph s.ops found ∧ getAgent idx found = .error fault found

/-- What holds of a call, whatever happens. -/
structure Keeps (graph : TemporalHypergraph G V HE) (store : StoreInner F)
    (agents : List VertexIndex) (s : Seeding G V HE E F) : Prop where
  ran : Topology.run s.ops graph = some s.graph
  inHand : s.InHand graph agents
  seeded : ∀ seed ∈ s.seeded, Found graph s.ops seed.idx seed.id ∧
    Had graph s.ops seed.idx seed.episodes
  threshold : s.store.failureThreshold = store.failureThreshold
  /-- The store has what was seeded, and what others have done. -/
  counts : ∀ id, Grows (countsOf store.counts id) (countsOf s.store.counts id)
    ((s.seeded.map fun seed ↦ if id = seed.id then seed.episodes else 0).sum +
      (s.uses.map (StoreUse.history id)).sum)
    (s.uses.map (StoreUse.failures store.failureThreshold id)).sum

theorem keeps_start :
    (start graph store agents : Seeding G V HE E F).Keeps graph store agents where
  ran := rfl
  inHand := rfl
  seeded _ h := by cases h
  threshold := rfl
  counts _ := .refl _

theorem Keeps.was (h : s.Keeps graph store agents) : Was graph s.ops s.graph :=
  ⟨s.ops, List.prefix_refl _, h.ran⟩

theorem Keeps.move (h : s.Keeps graph store agents) (hmove : s.move = some s') :
    s'.Keeps graph store agents := by
  obtain ⟨current, inner, todo, stage, seeded, ops, uses⟩ := s
  have hin := h.inHand
  cases stage with
  | looking =>
      cases todo with
      | nil =>
          cases hmove
          exact ⟨h.ran, hin.trans (List.append_nil _), h.seeded, h.threshold, h.counts⟩
      | cons idx todo =>
          simp only [Seeding.move] at hmove
          split at hmove
          · next weight after hget =>
              cases hmove
              obtain rfl := (CoalitionManager.still_getAgent idx).eq_of_ok hget
              exact ⟨h.ran, ⟨hin, _, h.was, weight, hget, rfl⟩, h.seeded, h.threshold, h.counts⟩
          · next fault after hget =>
              cases hmove
              obtain rfl := (CoalitionManager.still_getAgent idx).eq_of_error hget
              exact ⟨h.ran, ⟨idx, todo, hin, _, h.was, hget⟩, h.seeded, h.threshold, h.counts⟩
  | reading idx id =>
      cases hmove
      exact ⟨h.ran, ⟨hin.1, hin.2, _, h.was, rfl⟩, h.seeded, h.threshold, h.counts⟩
  | adding idx id episodes =>
      cases hmove
      refine ⟨h.ran, ?_, fun seed hseed ↦ ?_, h.threshold, fun id' ↦ ?_⟩
      · change agents = (seeded ++ [_]).map Seed.idx ++ todo
        rw [List.map_append, List.append_assoc]
        exact hin.1
      · rcases List.mem_append.mp hseed with hmem | hmem
        · exact h.seeded seed hmem
        · obtain rfl := List.mem_singleton.mp hmem
          exact hin.2
      · have hboth := (h.counts id').trans (grows_addHistory inner id episodes id')
        change Grows _ _ (((seeded ++ [_]).map _).sum + _) _
        rw [List.map_append, List.sum_append, List.map_singleton, List.sum_singleton,
          Nat.add_right_comm]
        exact hboth
  | finished result => cases hmove

theorem Keeps.change (h : s.Keeps graph store agents) {op : Op V HE E}
    {current : TemporalHypergraph G V HE} (hstep : Topology.step s.graph op = some current) :
    Keeps graph store agents { s with graph := current, ops := s.ops ++ [op] } := by
  have hran : Topology.run (s.ops ++ [op]) graph = some current := by
    rw [Topology.run_append, h.ran]
    change (Topology.step s.graph op >>= fun graph ↦ some graph) = some current
    rw [hstep]
    rfl
  refine ⟨hran, ?_, fun seed hseed ↦ ?_, h.threshold, h.counts⟩
  · have hin := h.inHand
    unfold InHand at hin ⊢
    dsimp only
    split at hin
    · exact hin
    · exact ⟨hin.1, hin.2.grow op⟩
    · exact ⟨hin.1, hin.2.1.grow op, hin.2.2.grow op⟩
    · exact hin
    · obtain ⟨idx, todo, hagents, found, hwas, hget⟩ := hin
      exact ⟨idx, todo, hagents, found, hwas.grow op, hget⟩
  · obtain ⟨hfound, hhad⟩ := h.seeded seed hseed
    exact ⟨hfound.grow op, hhad.grow op⟩

theorem Keeps.step (h : s.Keeps graph store agents) {action : Action V HE E F}
    (hstep : s.step action = some s') : s'.Keeps graph store agents := by
  cases action with
  | seed => exact h.move hstep
  | change op =>
      obtain ⟨current, hcurrent, rfl⟩ := Option.map_eq_some_iff.mp hstep
      exact h.change hcurrent
  | use use =>
      cases hstep
      refine ⟨h.ran, h.inHand, h.seeded, ?_, fun id ↦ ?_⟩
      · exact (use.grows s.store 0).1.trans h.threshold
      · have hboth := (h.counts id).trans (use.grows s.store id).2
        rw [h.threshold] at hboth
        change Grows _ _ (_ + ((s.uses ++ [use]).map _).sum) ((s.uses ++ [use]).map _).sum
        rw [List.map_append, List.sum_append, List.map_append, List.sum_append, List.map_singleton,
          List.sum_singleton, List.map_singleton, List.sum_singleton, ← Nat.add_assoc]
        exact hboth

theorem keeps_run {actions : List (Action V HE E F)}
    (h : run actions (start graph store agents) = some s) : s.Keeps graph store agents :=
  Fallible.foldlM_inv (P := fun s : Seeding G V HE E F ↦ s.Keeps graph store agents)
    (fun _ _ _ _ hs hstep ↦ hs.step hstep) keeps_start h

/-! ## What is seeded -/

variable [LawfulHypergraph G]

omit [AgentCapabilities V] in
/-- The log only grows. -/
theorem events_prefix_run {current : TemporalHypergraph G V HE}
    (h : Topology.run ops graph = some current) :
    graph.events.events <+: current.events.events := by
  refine Topology.run_induction
    (P := fun _ current ↦ graph.events.events <+: current.events.events)
    (List.prefix_refl _) (fun _ op mid _ _ ih ↦ ih.trans ?_) h
  rcases Topology.Op.apply_cases op mid with (hsame | hsame) | ⟨event, hrecords, -⟩
  · rw [hsame]
  · rw [hsame]
  · rw [hrecords.events, EventLog.events_append]
    exact List.prefix_append _ _

omit [AgentCapabilities V] in
theorem Was.events {past current : TemporalHypergraph G V HE} (h : Was graph ops past)
    (hrun : Topology.run ops graph = some current) :
    graph.events.events <+: past.events.events ∧
      past.events.events <+: current.events.events := by
  obtain ⟨before, ⟨later, rfl⟩, hbefore⟩ := h
  rw [Topology.run_append, hbefore] at hrun
  exact ⟨events_prefix_run hbefore, events_prefix_run hrun⟩

section Example

attribute [local instance] Decision.exactNumbers

end Example

end Seeding

end Koalisi.Subsystems
