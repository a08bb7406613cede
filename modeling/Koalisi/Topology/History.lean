import Koalisi.Topology.Hypergraph
import Koalisi.Topology.Queries

/-!
# What an event log says about the graph

An event describes a change of the contents of a graph, `effect`, and what it says
about the contents before the change, `Legal`.  A `History` is a list of events
each legal where it stands; it leads from the empty graph to one definite state.
Runs of a temporal hypergraph are connected to this abstraction in `Runs`, where a
run's log is shown to be a history that leads to the contents of its graph.

The queries read a log object by object instead of replaying it.  `Agrees` states
that the two readings coincide, and holds of every history whose joins do not
name their target among their sources and whose clears find nothing to clear.
-/

namespace Koalisi.Topology

open Koalisi.Lib.Timeline

variable {V HE : Type}

/-! ## Effects of events -/

namespace TemporalEvent

/-- What an event changed in the contents of the graph. -/
def effect : TemporalEvent V HE → GraphState V HE → GraphState V HE
  | .vertexAdded _ index weight, s => s.setVertex index weight
  | .vertexRemoved _ index _, s => s.dropVertex index
  | .vertexWeightUpdated _ index _ newWeight, s => s.setVertex index newWeight
  | .hyperedgeAdded _ index vertices weight, s => s.setHyperedge index vertices weight
  | .hyperedgeRemoved _ index _ _, s => s.dropHyperedges [index]
  | .hyperedgeWeightUpdated _ index _ newWeight, s => s.setWeight index newWeight
  | .hyperedgeVerticesUpdated _ index _ newVertices, s => s.setMembers index newVertices
  | .hyperedgeReversed _ index _ newVertices, s => s.setMembers index newVertices
  | .hyperedgesJoined _ targetIndex sourceIndices newVertices, s =>
      (s.dropHyperedges (sourceIndices.filter (· ≠ targetIndex))).setMembers targetIndex
        newVertices
  | .verticesContracted _ hyperedgeIndex _ _ _ newVertices, s =>
      s.setMembers hyperedgeIndex newVertices
  | .hyperedgesCleared _ _, s => s.clearHyperedges
  | .graphCleared _ _ _, _ => .empty
  | .snapshotMarker _ _, s => s

/-- What an event says about the contents it found: the objects it changes are
there, with the old data it records. -/
def Legal : TemporalEvent V HE → GraphState V HE → Prop
  | .vertexRemoved _ index weight, s => s.vertices index = some weight
  | .vertexWeightUpdated _ index oldWeight _, s => s.vertices index = some oldWeight
  | .hyperedgeRemoved _ index vertices weight, s => s.hyperedges index = some (vertices, weight)
  | .hyperedgeWeightUpdated _ index oldWeight _, s =>
      ∃ vertices, s.hyperedges index = some (vertices, oldWeight)
  | .hyperedgeVerticesUpdated _ index oldVertices _, s =>
      ∃ weight, s.hyperedges index = some (oldVertices, weight)
  | .hyperedgeReversed _ index oldVertices _, s =>
      ∃ weight, s.hyperedges index = some (oldVertices, weight)
  | .hyperedgesJoined _ targetIndex _ _, s => ∃ p, s.hyperedges targetIndex = some p
  | .verticesContracted _ hyperedgeIndex _ _ oldVertices _, s =>
      ∃ weight, s.hyperedges hyperedgeIndex = some (oldVertices, weight)
  | _, _ => True

/-- What an event clears, if it is a clear. -/
inductive Scope where
  | hyperedges
  | graph
deriving DecidableEq, Repr

/-- The scope of a clear; clears name no object. -/
def clears : TemporalEvent V HE → Option Scope
  | .hyperedgesCleared _ _ => some .hyperedges
  | .graphCleared _ _ _ => some .graph
  | _ => none

/-- A clear that finds nothing in its scope, or any event that is no clear. -/
def ClearsNothing (e : TemporalEvent V HE) (s : GraphState V HE) : Prop :=
  match e.clears with
  | some .hyperedges => ∀ h, s.hyperedges h = none
  | some .graph => (∀ v, s.vertices v = none) ∧ ∀ h, s.hyperedges h = none
  | none => True

/-- A join whose target is not among its sources, or any event that is no join. -/
def JoinsApart : TemporalEvent V HE → Prop
  | .hyperedgesJoined _ targetIndex sourceIndices _ => targetIndex ∉ sourceIndices
  | _ => True

end TemporalEvent

/-- A list of events, each legal where it stands, and the contents it leads to. -/
inductive History : List (TemporalEvent V HE) → GraphState V HE → Prop
  | nil : History [] .empty
  | snoc {es : List (TemporalEvent V HE)} {s : GraphState V HE} {e : TemporalEvent V HE} :
      History es s → e.Legal s → History (es ++ [e]) (e.effect s)

/-- A history ending in an event is a history before it, at which the event is legal. -/
theorem History.snoc_inv {es : List (TemporalEvent V HE)} {e : TemporalEvent V HE}
    {s : GraphState V HE} (h : History (es ++ [e]) s) :
    ∃ s₀, History es s₀ ∧ e.Legal s₀ ∧ s = e.effect s₀ := by
  generalize hfs : es ++ [e] = fs at h
  cases h with
  | nil => exact absurd hfs (List.append_ne_nil_of_right_ne_nil _ (List.cons_ne_nil _ _))
  | snoc h hl =>
      obtain ⟨rfl, he⟩ := List.append_inj' hfs rfl
      cases he
      exact ⟨_, h, hl, rfl⟩

/-- Every prefix of a history is a history. -/
theorem History.of_append {es fs : List (TemporalEvent V HE)} {s : GraphState V HE}
    (h : History (es ++ fs) s) : ∃ s₀, History es s₀ := by
  induction fs using List.reverseRecOn generalizing s with
  | nil => exact ⟨s, by rwa [List.append_nil] at h⟩
  | append_singleton fs f ih =>
      rw [← List.append_assoc] at h
      obtain ⟨s₀, h₀, _⟩ := h.snoc_inv
      exact ih h₀

/-- A history leads to one state only. -/
theorem History.unique {es : List (TemporalEvent V HE)} {s s' : GraphState V HE}
    (h : History es s) (h' : History es s') : s' = s := by
  induction h generalizing s' with
  | nil =>
      generalize hes : ([] : List (TemporalEvent V HE)) = es at h'
      cases h' with
      | nil => rfl
      | snoc => exact absurd hes.symm (List.append_ne_nil_of_right_ne_nil _ (List.cons_ne_nil _ _))
  | snoc h hl ih =>
      obtain ⟨s₀, h₀, _, rfl⟩ := h'.snoc_inv
      rw [ih h₀]

/-- What holds after the first part of a history, and is kept by every event of the rest,
holds at its end. -/
theorem History.preserves {P : GraphState V HE → Prop} {es gs : List (TemporalEvent V HE)}
    {s : GraphState V HE} (h : History (es ++ gs) s) (h₀ : ∀ s₀, History es s₀ → P s₀)
    (hstep : ∀ e ∈ gs, ∀ s, P s → e.Legal s → P (e.effect s)) : P s := by
  induction gs using List.reverseRecOn generalizing s with
  | nil => exact h₀ s (by rwa [List.append_nil] at h)
  | append_singleton gs e ih =>
      rw [← List.append_assoc] at h
      obtain ⟨s₁, h₁, hl, rfl⟩ := h.snoc_inv
      exact hstep e (by simp) s₁ (ih h₁ fun e' he' ↦ hstep e' (by simp [he'])) hl

/-! ## One more event, object by object -/

section Concat

variable (es : List (TemporalEvent V HE)) (e : TemporalEvent V HE)

theorem vertexAlive_concat (v : VertexIndex) : vertexAlive (es ++ [e]) v =
    if v ∈ e.vertexKeys then vertexExistsStep (vertexAlive es v) e else vertexAlive es v :=
  objectFold_concat _ v _ _ es e

theorem vertexWeight_concat (v : VertexIndex) : vertexWeight (es ++ [e]) v =
    if v ∈ e.vertexKeys then vertexWeightStep (vertexWeight es v) e else vertexWeight es v :=
  objectFold_concat _ v _ _ es e

theorem hyperedgeAlive_concat (h : HyperedgeIndex) : hyperedgeAlive (es ++ [e]) h =
    if h ∈ e.hyperedgeKeys then hyperedgeExistsStep h (hyperedgeAlive es h) e
    else hyperedgeAlive es h :=
  objectFold_concat _ h _ _ es e

theorem hyperedgeWeight_concat (h : HyperedgeIndex) : hyperedgeWeight (es ++ [e]) h =
    if h ∈ e.hyperedgeKeys then hyperedgeWeightStep h (hyperedgeWeight es h) e
    else hyperedgeWeight es h :=
  objectFold_concat _ h _ _ es e

theorem hyperedgeVertices_concat (h : HyperedgeIndex) : hyperedgeVertices (es ++ [e]) h =
    if h ∈ e.hyperedgeKeys then hyperedgeVerticesStep h (hyperedgeVertices es h) e
    else hyperedgeVertices es h :=
  objectFold_concat _ h _ _ es e

end Concat

/-! ## Queries and effects, one event at a time -/

section Step

variable {s : GraphState V HE} {e : TemporalEvent V HE}

/-- A vertex an event does not mention keeps what it holds, unless it is cleared. -/
theorem effect_vertices_of_unmentioned (hc : e.ClearsNothing s) {v : VertexIndex}
    (hk : v ∉ e.vertexKeys) : (e.effect s).vertices v = s.vertices v := by
  cases e with
  | graphCleared => exact (hc.1 v).symm
  | vertexAdded | vertexRemoved | vertexWeightUpdated =>
      exact if_neg fun hv ↦ hk (by rw [hv]; exact List.mem_cons_self)
  | _ => rfl

/-- A hyperedge an event does not mention keeps what it holds, unless it is cleared. -/
theorem effect_hyperedges_of_unmentioned (hc : e.ClearsNothing s) {h : HyperedgeIndex}
    (hk : h ∉ e.hyperedgeKeys) : (e.effect s).hyperedges h = s.hyperedges h := by
  cases e with
  | hyperedgesCleared => exact (hc h).symm
  | graphCleared => exact (hc.2 h).symm
  | hyperedgesJoined _ target sources =>
      have ht : h ≠ target := fun hh ↦ hk (by rw [hh]; exact List.mem_cons_self)
      have hs : h ∉ sources := fun hh ↦ hk (List.mem_cons_of_mem _ hh)
      change (if h = target then _ else if h ∈ sources.filter (· ≠ target) then none
        else s.hyperedges h) = _
      rw [if_neg ht, if_neg fun hm ↦ hs (List.mem_of_mem_filter hm)]
  | hyperedgeRemoved => exact if_neg hk
  | hyperedgeAdded | hyperedgeWeightUpdated | hyperedgeVerticesUpdated | hyperedgeReversed
  | verticesContracted => exact if_neg fun hv ↦ hk (by rw [hv]; exact List.mem_cons_self)
  | _ => rfl

/-- What the queries make of an event that mentions a vertex is what it did to the vertex. -/
theorem vertexStep_effect (hl : e.Legal s) {v : VertexIndex} (hk : v ∈ e.vertexKeys) :
    vertexExistsStep (s.vertices v).isSome e = ((e.effect s).vertices v).isSome ∧
      vertexWeightStep (s.vertices v) e = (e.effect s).vertices v := by
  cases e with
  | vertexAdded _ index w | vertexRemoved _ index w =>
      cases List.mem_singleton.mp hk
      simp [vertexExistsStep, vertexWeightStep, TemporalEvent.effect, GraphState.setVertex,
        GraphState.dropVertex]
  | vertexWeightUpdated _ index old new =>
      cases List.mem_singleton.mp hk
      have hv : s.vertices v = some old := hl
      simp [vertexExistsStep, vertexWeightStep, TemporalEvent.effect, GraphState.setVertex, hv]
  | verticesContracted => exact ⟨rfl, rfl⟩
  | _ => cases hk

/-- What the queries make of an event that mentions a hyperedge is what it did to the
hyperedge, unless it is a join whose target is among its sources. -/
theorem hyperedgeStep_effect (hl : e.Legal s) (hj : e.JoinsApart) {h : HyperedgeIndex}
    (hk : h ∈ e.hyperedgeKeys) :
    hyperedgeExistsStep h (s.hyperedges h).isSome e = ((e.effect s).hyperedges h).isSome ∧
      hyperedgeWeightStep h ((s.hyperedges h).map Prod.snd) e =
        ((e.effect s).hyperedges h).map Prod.snd ∧
      hyperedgeVerticesStep h ((s.hyperedges h).map Prod.fst) e =
        ((e.effect s).hyperedges h).map Prod.fst := by
  cases e with
  | hyperedgeAdded _ index vs w =>
      cases List.mem_singleton.mp hk
      simp [hyperedgeExistsStep, hyperedgeWeightStep, hyperedgeVerticesStep,
        TemporalEvent.effect, GraphState.setHyperedge]
  | hyperedgeRemoved _ index vs w =>
      cases List.mem_singleton.mp hk
      simp [hyperedgeExistsStep, hyperedgeWeightStep, hyperedgeVerticesStep,
        TemporalEvent.effect, GraphState.dropHyperedges]
  | hyperedgeWeightUpdated _ index old new =>
      cases List.mem_singleton.mp hk
      obtain ⟨vs, hs⟩ := hl
      simp [hyperedgeExistsStep, hyperedgeWeightStep, hyperedgeVerticesStep,
        TemporalEvent.effect, GraphState.setWeight, hs]
  | hyperedgeVerticesUpdated _ index old new | hyperedgeReversed _ index old new
  | verticesContracted _ index _ _ old new =>
      cases List.mem_singleton.mp hk
      obtain ⟨w, hs⟩ := hl
      simp [hyperedgeExistsStep, hyperedgeWeightStep, hyperedgeVerticesStep,
        TemporalEvent.effect, GraphState.setMembers, hs]
  | hyperedgesJoined _ target sources new =>
      obtain ⟨p, hs⟩ := hl
      rcases List.mem_cons.mp hk with rfl | hm
      · -- The target keeps its weight and takes the joined members.
        have hn : h ∉ sources := hj
        simp [hyperedgeExistsStep, hyperedgeWeightStep, hyperedgeVerticesStep,
          TemporalEvent.effect, GraphState.setMembers, GraphState.dropHyperedges, hs, hn]
      · -- A source is gone.
        have hm : h ∈ sources := hm
        have ht : h ≠ target := fun hh ↦ hj (by rw [← hh]; exact hm)
        simp [hyperedgeExistsStep, hyperedgeWeightStep, hyperedgeVerticesStep,
          TemporalEvent.effect, GraphState.setMembers, GraphState.dropHyperedges, hm, ht, ht.symm]
  | _ => cases hk

end Step

/-- One more event keeps the vertices the queries take to exist those that do. -/
theorem vertexAlive_snoc {es : List (TemporalEvent V HE)} {s : GraphState V HE}
    {e : TemporalEvent V HE} (hl : e.Legal s) (hc : e.ClearsNothing s) {v : VertexIndex}
    (ha : vertexAlive es v = (s.vertices v).isSome) :
    vertexAlive (es ++ [e]) v = ((e.effect s).vertices v).isSome := by
  rw [vertexAlive_concat, ha]
  split
  · rename_i hk
    exact (vertexStep_effect hl hk).1
  · rename_i hk
    rw [effect_vertices_of_unmentioned hc hk]

/-! ## Agreement -/

/-- Every clear of a list of events stands where there is nothing in its scope. -/
def ClearsNothingIn (es : List (TemporalEvent V HE)) : Prop :=
  ∀ fs e gs s₀, es = fs ++ e :: gs → History fs s₀ → e.ClearsNothing s₀

theorem ClearsNothingIn.of_append {es fs : List (TemporalEvent V HE)}
    (h : ClearsNothingIn (es ++ fs)) : ClearsNothingIn es := fun es₁ e es₂ s₀ hs ↦
  h es₁ e (es₂ ++ fs) s₀ (by rw [hs, List.append_assoc, List.cons_append])

/-- The object folds of a list of events read off the contents `s`. -/
structure Agrees (es : List (TemporalEvent V HE)) (s : GraphState V HE) : Prop where
  vertexAlive_eq : ∀ v, vertexAlive es v = (s.vertices v).isSome
  vertexWeight_eq : ∀ v, vertexWeight es v = s.vertices v
  hyperedgeAlive_eq : ∀ h, hyperedgeAlive es h = (s.hyperedges h).isSome
  hyperedgeWeight_eq : ∀ h, hyperedgeWeight es h = (s.hyperedges h).map Prod.snd
  hyperedgeVertices_eq : ∀ h, hyperedgeVertices es h = (s.hyperedges h).map Prod.fst

theorem Agrees.nil : Agrees ([] : List (TemporalEvent V HE)) .empty :=
  ⟨fun _ ↦ rfl, fun _ ↦ rfl, fun _ ↦ rfl, fun _ ↦ rfl, fun _ ↦ rfl⟩

/-- One more event keeps the agreement. -/
theorem Agrees.snoc {es : List (TemporalEvent V HE)} {s : GraphState V HE}
    {e : TemporalEvent V HE} (ha : Agrees es s) (hl : e.Legal s) (hc : e.ClearsNothing s)
    (hj : e.JoinsApart) : Agrees (es ++ [e]) (e.effect s) where
  vertexAlive_eq v := vertexAlive_snoc hl hc (ha.vertexAlive_eq v)
  vertexWeight_eq v := by
    rw [vertexWeight_concat, ha.vertexWeight_eq]
    split
    · rename_i hk
      exact (vertexStep_effect hl hk).2
    · rename_i hk
      rw [effect_vertices_of_unmentioned hc hk]
  hyperedgeAlive_eq h := by
    rw [hyperedgeAlive_concat, ha.hyperedgeAlive_eq]
    split
    · rename_i hk
      exact (hyperedgeStep_effect hl hj hk).1
    · rename_i hk
      rw [effect_hyperedges_of_unmentioned hc hk]
  hyperedgeWeight_eq h := by
    rw [hyperedgeWeight_concat, ha.hyperedgeWeight_eq]
    split
    · rename_i hk
      exact (hyperedgeStep_effect hl hj hk).2.1
    · rename_i hk
      rw [effect_hyperedges_of_unmentioned hc hk]
  hyperedgeVertices_eq h := by
    rw [hyperedgeVertices_concat, ha.hyperedgeVertices_eq]
    split
    · rename_i hk
      exact (hyperedgeStep_effect hl hj hk).2.2
    · rename_i hk
      rw [effect_hyperedges_of_unmentioned hc hk]

/-- The object folds of a history agree with the contents it leads to, if each of its
joins names its target once and each of its clears finds nothing. -/
theorem History.agrees {es : List (TemporalEvent V HE)} {s : GraphState V HE}
    (h : History es s) (hj : ∀ e ∈ es, e.JoinsApart) (hc : ClearsNothingIn es) :
    Agrees es s := by
  induction h with
  | nil => exact Agrees.nil
  | @snoc es s e h hl ih =>
      have hpre : Agrees es s := ih (fun e' he' ↦ hj e' (List.mem_append_left _ he'))
        hc.of_append
      exact hpre.snoc hl (hc es e [] s rfl h) (hj e (by simp))

end Koalisi.Topology
