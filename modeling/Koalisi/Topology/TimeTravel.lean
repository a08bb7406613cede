import Koalisi.Topology.Runs

/-!
# Time travel refines the live graph

A point-in-time query asked of the final log at the timestamp of an event answers
what the live graph held when that event was the last one.  The log splits at the
timestamp (`Coherent.splitsAt`), so a query is an object fold of the events up to
it; these form a history that leads to the contents the graph had then, and the
object folds of a history agree with the contents it leads to (`History.agrees`).

Operations after the instant are unrestricted.
-/

namespace Koalisi.Topology

open Koalisi.Lib Koalisi.Topology.Hypergraph

variable {G V HE E : Type}

section

variable [Hypergraph G V HE E] [LawfulHypergraph G]

/-- In a run without clears, whose joins are of distinct hyperedges, the object folds of
the log agree with the contents of the graph. -/
theorem agrees_of_run {tap : Option (Channel (TemporalEvent V HE))} {ops : List (Op V HE E)}
    {fin : TemporalHypergraph G V HE} (h : run ops (start tap) = some fin)
    (hclears : ∀ op ∈ ops, op.clears = none) (hjoins : ∀ op ∈ ops, op.JoinsDistinct) :
    Agrees fin.events.events (state fin.graph) := by
  have hcoh := (coherent_start tap).run h
  refine hcoh.history.agrees (fun e he ↦ ?_) fun fs e gs s₀ hs _ ↦ ?_
  · obtain ⟨fs, gs, hs⟩ := List.append_of_mem he
    obtain ⟨ops₁, op, ops₂, mid, rfl, _, _, _, _, hapart⟩ := run_fresh_event h hs
    exact hapart (hjoins op (by simp))
  · obtain ⟨ops₁, op, ops₂, mid, rfl, _, _, _, hcl, _⟩ := run_fresh_event h hs
    rw [TemporalEvent.ClearsNothing, hcl, hclears op (by simp)]
    trivial

/-- **Time travel refines the live graph.**  Let a run without clears, whose joins are of
distinct hyperedges, pass through `mid`, the last event of whose log is `last`, and end
in `fin`.  The point-in-time queries at the timestamp of `last` on the final log return
what the graph held at `mid`. -/
theorem time_travel_refines_live_graph (tap : Option (Channel (TemporalEvent V HE)))
    (ops₁ ops₂ : List (Op V HE E)) (mid fin : TemporalHypergraph G V HE)
    (last : TemporalEvent V HE) (hmid : run ops₁ (start tap) = some mid)
    (hfin : run ops₂ mid = some fin) (hclears : ∀ op ∈ ops₁, op.clears = none)
    (hjoins : ∀ op ∈ ops₁, op.JoinsDistinct) (hlast : mid.events.events.getLast? = some last) :
    (∀ v, vertexExistsAt fin.events v last.timestamp = true ↔
      ∃ w, getVertexWeight v mid.graph = .ok w) ∧
    (∀ v w, vertexWeightAt fin.events v last.timestamp = some w ↔
      getVertexWeight v mid.graph = .ok w) ∧
    (∀ h, hyperedgeExistsAt fin.events h last.timestamp = true ↔
      ∃ vs, getHyperedgeVertices h mid.graph = .ok vs) ∧
    (∀ h w, hyperedgeWeightAt fin.events h last.timestamp = some w ↔
      getHyperedgeWeight h mid.graph = .ok w) ∧
    (∀ h vs, hyperedgeVerticesAt fin.events h last.timestamp = some vs ↔
      getHyperedgeVertices h mid.graph = .ok vs) ∧
    countVerticesAt fin.events last.timestamp = countVertices mid.graph ∧
    countHyperedgesAt fin.events last.timestamp = countHyperedges mid.graph := by
  have hcoh := ((coherent_start tap).run hmid).run hfin
  have hagree := agrees_of_run hmid hclears hjoins
  obtain ⟨es, hes⟩ := List.getLast?_eq_some_iff.mp hlast
  obtain ⟨fs, hfs⟩ := run_events hfin
  have hsplit : SplitsAt fin.events last.timestamp mid.events.events := by
    rw [hes]
    exact hcoh.splitsAt (by rw [hfs, hes, List.append_assoc]; rfl)
  refine ⟨fun v ↦ ?_, fun v w ↦ ?_, fun h ↦ ?_, fun h w ↦ ?_, fun h vs ↦ ?_, ?_, ?_⟩
  · rw [hsplit.vertexExistsAt_eq, hagree.vertexAlive_eq, Option.isSome_iff_exists]
    exact exists_congr fun w ↦ state_vertices_eq_some
  · rw [hsplit.vertexWeightAt_eq, hagree.vertexWeight_eq, state_vertices_eq_some]
  · rw [hsplit.hyperedgeExistsAt_eq, hagree.hyperedgeAlive_eq, Option.isSome_iff_exists]
    constructor
    · rintro ⟨⟨vs, w⟩, hp⟩
      exact ⟨vs, (state_hyperedges_eq_some.mp hp).1⟩
    · rintro ⟨vs, hvs⟩
      obtain ⟨w, hw⟩ := state_hyperedges_of_vertices hvs
      exact ⟨(vs, w), hw⟩
  · rw [hsplit.hyperedgeWeightAt_eq, hagree.hyperedgeWeight_eq, Option.map_eq_some_iff]
    constructor
    · rintro ⟨⟨vs, w'⟩, hp, rfl⟩
      exact (state_hyperedges_eq_some.mp hp).2
    · intro hw
      obtain ⟨vs, hvs⟩ := state_hyperedges_of_weight hw
      exact ⟨(vs, w), hvs, rfl⟩
  · rw [hsplit.hyperedgeVerticesAt_eq, hagree.hyperedgeVertices_eq, Option.map_eq_some_iff]
    constructor
    · rintro ⟨⟨vs', w⟩, hp, rfl⟩
      exact (state_hyperedges_eq_some.mp hp).1
    · intro hvs
      obtain ⟨w, hw⟩ := state_hyperedges_of_vertices hvs
      exact ⟨(vs, w), hw, rfl⟩
  · obtain ⟨s, hs, hcount⟩ := LawfulHypergraph.countVertices_eq mid.graph
    rw [hcount]
    refine hsplit.countVerticesAt_eq fun v ↦ ?_
    rw [hs, hagree.vertexAlive_eq, Option.ne_none_iff_isSome]
  · obtain ⟨s, hs, hcount⟩ := LawfulHypergraph.countHyperedges_eq mid.graph
    rw [hcount]
    refine hsplit.countHyperedgesAt_eq fun h ↦ ?_
    rw [hs, hagree.hyperedgeAlive_eq, Option.ne_none_iff_isSome]

end

/-- Two vertices, and two hyperedges that are joined. -/
def joinOps : List (Op Nat Nat MapGraphError) :=
  [.mutate (.addVertex 10), .mutate (.addVertex 11), .mutate (.addHyperedge [0] 5),
    .mutate (.addHyperedge [1] 6), .mutate (.joinHyperedges [0, 1])]

/-- The members of the join can be read back after the graph was cleared. -/
theorem time_travel_past_a_clear :
    ∃ mid fin : TemporalHypergraph (MapGraph Nat Nat) Nat Nat,
      run joinOps (start none) = some mid ∧
      run [.mutate (.removeVertex 0), .mutate .clear] mid = some fin ∧
      hyperedgeVerticesAt fin.events 0 4 = some [0, 1] := by
  have hmid : run joinOps (start none : TemporalHypergraph (MapGraph Nat Nat) Nat Nat) =
    some (issue joinOps (start none)) := rfl
  refine ⟨_, _, hmid, rfl, ?_⟩
  have h := time_travel_refines_live_graph none joinOps [.mutate (.removeVertex 0), .mutate .clear]
    _ _ (.hyperedgesJoined 4 0 [1] [0, 1]) hmid rfl (by simp [joinOps, Op.clears, Call.clears])
    (by simp [joinOps, Op.JoinsDistinct, Call.JoinsDistinct])
  exact ((h rfl).2.2.2.2.1 0 [0, 1]).mpr rfl

end Koalisi.Topology
