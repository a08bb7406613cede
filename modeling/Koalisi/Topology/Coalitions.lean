import Koalisi.Topology.Runs

/-!
# Coalitions of agents

Agents are vertices, and a coalition is a hyperedge connecting its members.  The
methods of a `CoalitionManager` that change something are calls of the temporal
hypergraph it wraps; the two that change who belongs to a coalition hand it a mutator,
so that the members are read and written under one lock.

A `Change` is one of these two with its agent.  `Change.apply` is what it makes of a list
of members, and `change_ok` and `change_refused` say that this is what happens to the
graph.
-/

namespace Koalisi.Topology

open Koalisi.Lib Koalisi.Lib.Fallible Koalisi.Topology.Hypergraph

variable {G V HE E : Type}

namespace CoalitionManager

/-- Add an agent to the system. -/
def addAgent (agent : V) : Call V HE E := .addVertex agent

/-- Remove an agent from the system; coalitions keep referring to it. -/
def removeAgent (agent : VertexIndex) : Call V HE E := .removeVertex agent

/-- Update an agent's data. -/
def updateAgent (agent : VertexIndex) (newData : V) : Call V HE E :=
  .updateVertexWeight agent newData

/-- Form a new coalition from a set of agents. -/
def formCoalition (agents : List VertexIndex) (coalition : HE) : Call V HE E :=
  .addHyperedge agents coalition

/-- Dissolve a coalition. -/
def dissolveCoalition (coalition : HyperedgeIndex) : Call V HE E := .removeHyperedge coalition

/-- Add an agent to an existing coalition. -/
def joinCoalition (agent : VertexIndex) (coalition : HyperedgeIndex) : Call V HE E :=
  .updateHyperedgeVerticesTry coalition fun members ↦
    .ok (if agent ∈ members then members else members ++ [agent])

/-- Remove an agent from a coalition; the last member cannot leave. -/
def leaveCoalition (agent : VertexIndex) (coalition : HyperedgeIndex) : Call V HE E :=
  .updateHyperedgeVerticesTry coalition fun members ↦
    let newMembers := members.filter (· ≠ agent)
    if newMembers.isEmpty then .error (.err .emptyCoalition) else .ok newMembers

/-- Update a coalition's data. -/
def updateCoalition (coalition : HyperedgeIndex) (newData : HE) : Call V HE E :=
  .updateHyperedgeWeight coalition newData

/-- Merge coalitions into the first of them. -/
def mergeCoalitions (coalitions : List HyperedgeIndex) : Call V HE E :=
  .joinHyperedges coalitions

end CoalitionManager

/-! ## Joins and leaves -/

/-- A change of who belongs to a coalition. -/
inductive Change where
  | join (agent : VertexIndex)
  | leave (agent : VertexIndex)
deriving DecidableEq, Repr

namespace Change

/-- The call that asks for the change. -/
def call (coalition : HyperedgeIndex) : Change → Call V HE E
  | .join agent => CoalitionManager.joinCoalition agent coalition
  | .leave agent => CoalitionManager.leaveCoalition agent coalition

/-- The members after the change. -/
def apply (members : List VertexIndex) : Change → List VertexIndex
  | .join agent => if agent ∈ members then members else members ++ [agent]
  | .leave agent => members.filter (· ≠ agent)

variable {members : List VertexIndex} {agent : VertexIndex}

/-- A join of a present agent does not alter the members. -/
theorem apply_join_of_mem (h : agent ∈ members) : (join agent).apply members = members :=
  if_pos h

/-- A leave of an absent agent does not alter the members. -/
theorem apply_leave_of_not_mem (h : agent ∉ members) : (leave agent).apply members = members :=
  List.filter_eq_self.mpr fun _ hv ↦ decide_eq_true fun he ↦ h (he ▸ hv)

/-- A change keeps a list of members free of duplicates. -/
theorem nodup_apply (h : members.Nodup) (change : Change) : (change.apply members).Nodup := by
  cases change with
  | join agent =>
      rw [apply]
      split
      · exact h
      · rename_i hn
        refine List.nodup_append.mpr ⟨h, List.nodup_singleton agent, ?_⟩
        intro v hv w hw he
        rw [List.mem_singleton.mp hw] at he
        exact hn (he ▸ hv)
  | leave agent => exact h.filter _

/-- Nobody is left without members by a join. -/
theorem apply_join_ne_nil : (join agent).apply members ≠ [] := by
  rw [apply]
  split
  · rename_i h
    exact List.ne_nil_of_mem h
  · exact List.append_ne_nil_of_right_ne_nil _ (List.cons_ne_nil _ _)

/-- What the mutator of a change makes of the members: it refuses to leave nobody. -/
def mutator (change : Change) (members : List VertexIndex) :
    Except (Fault E) (List VertexIndex) :=
  if change.apply members = [] then .error (.err .emptyCoalition) else .ok (change.apply members)

/-- Both changes are calls with such a mutator. -/
theorem call_eq (coalition : HyperedgeIndex) (change : Change) :
    (change.call coalition : Call V HE E) =
      .updateHyperedgeVerticesTry coalition change.mutator := by
  cases change with
  | join agent =>
      refine congrArg (Call.updateHyperedgeVerticesTry coalition) (funext fun members ↦ ?_)
      rw [mutator, if_neg apply_join_ne_nil, apply]
  | leave agent =>
      refine congrArg (Call.updateHyperedgeVerticesTry coalition) (funext fun members ↦ ?_)
      rw [mutator, apply]
      by_cases hn : members.filter (· ≠ agent) = []
      · rw [if_pos hn, if_pos (List.isEmpty_iff.mpr hn)]
      · rw [if_neg hn, if_neg fun he ↦ hn (List.isEmpty_iff.mp he)]

end Change

/-! ## What a change does to the graph -/

namespace GraphState

/-- The members of a hyperedge. -/
def membersOf (s : GraphState V HE) (h : HyperedgeIndex) : Option (List VertexIndex) :=
  (s.hyperedges h).map Prod.fst

section MembersOf

variable {s : GraphState V HE} {h i : HyperedgeIndex}

theorem membersOf_setMembers (vs : List VertexIndex) :
    (s.setMembers h vs).membersOf h = (s.membersOf h).map fun _ ↦ vs := by
  change Option.map _ (if h = h then _ else _) = _
  rw [if_pos rfl, membersOf, Option.map_map, Option.map_map]
  rfl

theorem membersOf_setMembers_of_ne (hi : i ≠ h) (vs : List VertexIndex) :
    (s.setMembers i vs).membersOf h = s.membersOf h := by
  change Option.map _ (if h = i then _ else _) = _
  rw [if_neg hi.symm]
  rfl

theorem membersOf_dropHyperedges_of_not_mem {hs : List HyperedgeIndex} (hn : h ∉ hs) :
    (s.dropHyperedges hs).membersOf h = s.membersOf h := by
  change Option.map _ (if h ∈ hs then _ else _) = _
  rw [if_neg hn]
  rfl

/-- New data leaves the members of a coalition alone. -/
theorem membersOf_setWeight (w : HE) : (s.setWeight i w).membersOf h = s.membersOf h := by
  change Option.map _ (if h = i then _ else _) = _
  split
  · rw [Option.map_map]
    rfl
  · rfl

end MembersOf

end GraphState

section Changes

variable [Hypergraph G V HE E] [LawfulHypergraph G] {g g' : G} {h : HyperedgeIndex}
variable {members : List VertexIndex}

theorem membersOf_eq_some :
    (state g).membersOf h = some members ↔ getHyperedgeVertices h g = .ok members := by
  constructor
  · intro hm
    obtain ⟨p, hp, rfl⟩ := Option.map_eq_some_iff.mp hm
    exact (state_hyperedges_eq_some.mp hp).1
  · intro hm
    obtain ⟨w, hw⟩ := state_hyperedges_of_vertices hm
    rw [GraphState.membersOf, hw]
    rfl

/-- A successful change replaces the members, and finishes with an event that says so. -/
theorem change_ok {change : Change}
    {finish : Timestamp → TemporalEvent V HE × (change.call h : Call V HE E).Reply}
    (hm : (state g).membersOf h = some members)
    (hc : ((change.call h : Call V HE E).mutation :
      Mutation G V HE E (change.call h : Call V HE E).Reply) g = .ok finish g') :
    change.apply members ≠ [] ∧ (state g').membersOf h = some (change.apply members) ∧
      ∀ t, (finish t).1 = .hyperedgeVerticesUpdated t h members (change.apply members) := by
  rw [membersOf_eq_some] at hm
  revert finish
  rw [Change.call_eq]
  intro finish hc
  obtain ⟨_, hj, rfl⟩ := mutation_eq_ok.mp hc
  obtain ⟨old, hr, hk⟩ := bind_read_eq_ok.mp hj
  obtain ⟨new, hnew, hk⟩ := bind_pureTry_eq_ok.mp hk
  obtain ⟨_, g₁, hw, hp⟩ := bind_write_eq_ok.mp hk
  obtain ⟨rfl, rfl⟩ := pure_eq_ok.mp hp
  rw [hm] at hr
  cases hr
  rw [Change.mutator] at hnew
  split at hnew
  · cases hnew
  · rename_i hne
    cases hnew
    obtain ⟨w, hw'⟩ := state_hyperedges_of_vertices hm
    refine ⟨hne, ?_, fun t ↦ rfl⟩
    rw [LawfulHypergraph.updateHyperedgeVertices_ok h _ g g₁ hw, GraphState.membersOf]
    change Option.map _ (if h = h then _ else _) = _
    rw [if_pos rfl, hw']
    rfl

/-- A change that would leave nobody is refused, and changes nothing. -/
theorem change_refused {change : Change} (hm : (state g).membersOf h = some members)
    (he : change.apply members = []) :
    ((change.call h : Call V HE E).mutation :
      Mutation G V HE E (change.call h : Call V HE E).Reply) g =
        .error (.err .emptyCoalition) g := by
  rw [membersOf_eq_some] at hm
  rw [Change.call_eq]
  simp only [Call.mutation, TemporalHypergraph.updateHyperedgeVerticesTry, mutation, bind_def,
    Job.read, mapError, look, hm, Job.pureTry, Change.mutator, he, if_true]

end Changes

end Koalisi.Topology
