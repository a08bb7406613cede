import Mathlib.Data.Finset.Card
import Koalisi.Topology.Events

/-!
# The graph backend

`catgraph_applied::Hypergraph` is a CRUD container outside this repository.  The
development takes it as a parameter: `Hypergraph` lists the operations the
topology layer calls, `AtomicHypergraph` and `LawfulHypergraph` what it relies
on.

What a graph *holds* is a `GraphState`: a partial map from vertices to weights
and one from hyperedges to members and weight.  The laws describe each operation
by what it does to that state.  They leave open whatever the topology layer reads
back from the graph instead of computing it itself: the order a reversal produces
and the members a join collects.
-/

namespace Koalisi.Topology

/-- What a hypergraph holds. -/
@[ext]
structure GraphState (V HE : Type) where
  /-- The weight of each live vertex. -/
  vertices : VertexIndex → Option V
  /-- The members and the weight of each live hyperedge. -/
  hyperedges : HyperedgeIndex → Option (List VertexIndex × HE)

namespace GraphState

variable {V HE : Type}

/-- No vertex and no hyperedge. -/
def empty : GraphState V HE := ⟨fun _ ↦ none, fun _ ↦ none⟩

/-- Give a vertex a weight. -/
def setVertex (s : GraphState V HE) (v : VertexIndex) (w : V) : GraphState V HE :=
  { s with vertices := fun v' ↦ if v' = v then some w else s.vertices v' }

/-- Remove a vertex; no hyperedge is rewritten. -/
def dropVertex (s : GraphState V HE) (v : VertexIndex) : GraphState V HE :=
  { s with vertices := fun v' ↦ if v' = v then none else s.vertices v' }

/-- Put a hyperedge at an index. -/
def setHyperedge (s : GraphState V HE) (h : HyperedgeIndex) (vs : List VertexIndex) (w : HE) :
    GraphState V HE :=
  { s with hyperedges := fun h' ↦ if h' = h then some (vs, w) else s.hyperedges h' }

/-- Remove every hyperedge of a list. -/
def dropHyperedges (s : GraphState V HE) (hs : List HyperedgeIndex) : GraphState V HE :=
  { s with hyperedges := fun h' ↦ if h' ∈ hs then none else s.hyperedges h' }

/-- Replace the members of a live hyperedge. -/
def setMembers (s : GraphState V HE) (h : HyperedgeIndex) (vs : List VertexIndex) :
    GraphState V HE :=
  { s with hyperedges := fun h' ↦
      if h' = h then (s.hyperedges h').map fun p ↦ (vs, p.2) else s.hyperedges h' }

/-- Replace the weight of a live hyperedge. -/
def setWeight (s : GraphState V HE) (h : HyperedgeIndex) (w : HE) : GraphState V HE :=
  { s with hyperedges := fun h' ↦
      if h' = h then (s.hyperedges h').map fun p ↦ (p.1, w) else s.hyperedges h' }

/-- Remove every hyperedge. -/
def clearHyperedges (s : GraphState V HE) : GraphState V HE :=
  { s with hyperedges := fun _ ↦ none }

end GraphState

/-- The operations of `catgraph_applied::Hypergraph<V, HE>` the topology layer
calls.  A method on `&mut self` returning a `Result` ends, on an error too, with the
graph it leaves behind. -/
class Hypergraph (G : Type) (V HE E : outParam Type) where
  new : G
  addVertex : V → G → VertexIndex × G
  removeVertex : VertexIndex → EStateM E G Unit
  updateVertexWeight : VertexIndex → V → EStateM E G Unit
  getVertexWeight : VertexIndex → G → Except E V
  addHyperedge : List VertexIndex → HE → EStateM E G HyperedgeIndex
  removeHyperedge : HyperedgeIndex → EStateM E G Unit
  updateHyperedgeWeight : HyperedgeIndex → HE → EStateM E G Unit
  updateHyperedgeVertices : HyperedgeIndex → List VertexIndex → EStateM E G Unit
  reverseHyperedge : HyperedgeIndex → EStateM E G Unit
  joinHyperedges : List HyperedgeIndex → EStateM E G HyperedgeIndex
  contractHyperedgeVertices :
    HyperedgeIndex → List VertexIndex → VertexIndex → EStateM E G (List VertexIndex)
  getHyperedgeWeight : HyperedgeIndex → G → Except E HE
  getHyperedgeVertices : HyperedgeIndex → G → Except E (List VertexIndex)
  countVertices : G → Nat
  countHyperedges : G → Nat
  clearHyperedges : G → G
  clear : G → G

namespace Hypergraph

variable {G V HE E : Type} [Hypergraph G V HE E]

/-- The contents of a graph, as its read methods show them. -/
def state (g : G) : GraphState V HE where
  vertices v := match getVertexWeight v g with
    | .ok w => some w
    | .error _ => none
  hyperedges h := match getHyperedgeVertices h g, getHyperedgeWeight h g with
    | .ok vs, .ok w => some (vs, w)
    | _, _ => none

end Hypergraph

open Koalisi.Topology.Hypergraph

/-- A failed operation leaves its graph unchanged, and an operation that reports a
hyperedge leaves it readable: the reversed one, and the target of a join, which
takes at least two hyperedges. -/
class AtomicHypergraph (G : Type) {V HE E : outParam Type} [Hypergraph G V HE E] : Prop where
  removeVertex_error : ∀ v (g : G) e g', removeVertex v g = .error e g' → g' = g
  updateVertexWeight_error : ∀ v w (g : G) e g', updateVertexWeight v w g = .error e g' → g' = g
  addHyperedge_error : ∀ vs w (g : G) e g', addHyperedge vs w g = .error e g' → g' = g
  removeHyperedge_error : ∀ h (g : G) e g', removeHyperedge h g = .error e g' → g' = g
  updateHyperedgeWeight_error :
    ∀ h w (g : G) e g', updateHyperedgeWeight h w g = .error e g' → g' = g
  updateHyperedgeVertices_error :
    ∀ h vs (g : G) e g', updateHyperedgeVertices h vs g = .error e g' → g' = g
  reverseHyperedge_error : ∀ h (g : G) e g', reverseHyperedge h g = .error e g' → g' = g
  joinHyperedges_error : ∀ hs (g : G) e g', joinHyperedges hs g = .error e g' → g' = g
  contractHyperedgeVertices_error :
    ∀ h vs v (g : G) e g', contractHyperedgeVertices h vs v g = .error e g' → g' = g
  reverseHyperedge_readable : ∀ h (g g' : G), reverseHyperedge h g = .ok () g' →
    ∃ vs, getHyperedgeVertices h g' = .ok vs
  joinHyperedges_readable : ∀ hs (g : G) t g', joinHyperedges hs g = .ok t g' →
    1 < hs.length ∧ ∃ vs, getHyperedgeVertices t g' = .ok vs

/-- What the operations do to the contents of a graph. -/
class LawfulHypergraph (G : Type) {V HE E : outParam Type} [Hypergraph G V HE E] : Prop
    extends AtomicHypergraph G where
  state_new : state (new : G) = .empty
  /-- Members and weight of a hyperedge are readable together. -/
  readable_iff : ∀ h (g : G),
    (∃ vs, getHyperedgeVertices h g = .ok vs) ↔ ∃ w, getHyperedgeWeight h g = .ok w
  countVertices_eq : ∀ g : G, ∃ s : Finset VertexIndex,
    (∀ v, v ∈ s ↔ (state g).vertices v ≠ none) ∧ countVertices g = s.card
  countHyperedges_eq : ∀ g : G, ∃ s : Finset HyperedgeIndex,
    (∀ h, h ∈ s ↔ (state g).hyperedges h ≠ none) ∧ countHyperedges g = s.card
  addVertex_ok : ∀ w (g g' : G) v, addVertex w g = (v, g') → state g' = (state g).setVertex v w
  removeVertex_ok : ∀ v (g g' : G), removeVertex v g = .ok () g' →
    state g' = (state g).dropVertex v
  updateVertexWeight_ok : ∀ v w (g g' : G), updateVertexWeight v w g = .ok () g' →
    state g' = (state g).setVertex v w
  addHyperedge_ok : ∀ vs w (g g' : G) h, addHyperedge vs w g = .ok h g' →
    state g' = (state g).setHyperedge h vs w
  removeHyperedge_ok : ∀ h (g g' : G), removeHyperedge h g = .ok () g' →
    state g' = (state g).dropHyperedges [h]
  updateHyperedgeWeight_ok : ∀ h w (g g' : G), updateHyperedgeWeight h w g = .ok () g' →
    state g' = (state g).setWeight h w
  updateHyperedgeVertices_ok : ∀ h vs (g g' : G), updateHyperedgeVertices h vs g = .ok () g' →
    state g' = (state g).setMembers h vs
  /-- A reversal touches only the named hyperedge. -/
  reverseHyperedge_ok : ∀ h (g g' : G), reverseHyperedge h g = .ok () g' →
    ∃ vs, state g' = (state g).setMembers h vs
  /-- A join moves all members into the first index and removes the others. -/
  joinHyperedges_ok : ∀ hs (g g' : G) t, joinHyperedges hs g = .ok t g' →
    hs.head? = some t ∧
      ∃ vs, state g' = ((state g).dropHyperedges (hs.tail.filter (· ≠ t))).setMembers t vs
  /-- A contraction touches only the named hyperedge, and returns its new members. -/
  contractHyperedgeVertices_ok : ∀ h vs v (g g' : G) nvs,
    contractHyperedgeVertices h vs v g = .ok nvs g' → state g' = (state g).setMembers h nvs
  state_clearHyperedges : ∀ g : G, state (clearHyperedges g) = (state g).clearHyperedges
  state_clear : ∀ g : G, state (clear g) = .empty

/-- What is added is new, as long as the graph is kept `Tidy`; and adding and removing
fail only where they have to: new members are there, and no hyperedge repeats another. -/
class GrowingHypergraph (G : Type) {V HE E : outParam Type} [Hypergraph G V HE E]
    extends LawfulHypergraph G where
  Tidy : G → Prop
  tidy_new : Tidy (new : G)
  tidy_addVertex : ∀ w (g g' : G) v, Tidy g → addVertex w g = (v, g') → Tidy g'
  tidy_addHyperedge : ∀ vs w (g g' : G) h, Tidy g → addHyperedge vs w g = .ok h g' → Tidy g'
  tidy_removeHyperedge : ∀ h (g g' : G), Tidy g → removeHyperedge h g = .ok () g' → Tidy g'
  addVertex_fresh : ∀ w (g g' : G) v, Tidy g → addVertex w g = (v, g') →
    (state g).vertices v = none
  addHyperedge_fresh : ∀ vs w (g g' : G) h, Tidy g → addHyperedge vs w g = .ok h g' →
    (state g).hyperedges h = none
  addHyperedge_succeeds : ∀ vs w (g : G), Tidy g → vs ≠ [] → vs.Nodup →
    (∀ v ∈ vs, (state g).vertices v ≠ none) → (∀ h, (state g).hyperedges h ≠ some (vs, w)) →
    ∃ h g', addHyperedge vs w g = .ok h g'
  removeHyperedge_succeeds : ∀ h (g : G), Tidy g → (state g).hyperedges h ≠ none →
    ∃ g', removeHyperedge h g = .ok () g'

/-- Nobody is lost on the way: a reversal keeps the members of a hyperedge, and a join
those of its target. -/
class SteadyHypergraph (G : Type) {V HE E : outParam Type} [Hypergraph G V HE E] : Prop
    extends LawfulHypergraph G where
  reverseHyperedge_members : ∀ h (g g' : G) old new, reverseHyperedge h g = .ok () g' →
    getHyperedgeVertices h g = .ok old → getHyperedgeVertices h g' = .ok new →
    ∀ v, v ∈ new ↔ v ∈ old
  joinHyperedges_members : ∀ hs (g g' : G) t old new, joinHyperedges hs g = .ok t g' →
    getHyperedgeVertices t g = .ok old → getHyperedgeVertices t g' = .ok new →
    ∀ v ∈ old, v ∈ new

/-- What is not there cannot be joined. -/
class GuardedHypergraph (G : Type) {V HE E : outParam Type} [Hypergraph G V HE E] : Prop
    extends LawfulHypergraph G where
  joinHyperedges_live : ∀ hs (g g' : G) t, joinHyperedges hs g = .ok t g' →
    ∀ h ∈ hs, (state g).hyperedges h ≠ none

end Koalisi.Topology
