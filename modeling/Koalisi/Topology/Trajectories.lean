import Mathlib.Logic.Function.Basic
import Mathlib.Order.WithBot
import Koalisi.Decision.Fresh
import Koalisi.Decision.Members
import Koalisi.Lib.Changes
import Koalisi.Topology.Lifespans
import Koalisi.Topology.Series

/-!
# Magnitude trajectories

The magnitude trajectory of a coalition is read off the log in one pass.  The pass keeps the
weights of all vertices and the members of the one hyperedge, and takes a sample after each
instant at which an event counts as a change of the coalition; a sample has the masks of the
members that hold something of the task, and the number of the members.

What the log says of a coalition is said object by object, `weightLeft` and `membersLeft`; on
a history it is what the graph contains (`History.left_eq`).  The last sample at or before an
instant reports the coalition as the log has it there, unless the coalition was reversed and
other masks came up (`magnitude_history_complete_iff`): of several members with one id the
first one counts, and a reversal, which is not sampled, may put another one first.  With no
such namesakes nothing is missed (`magnitude_history_complete`), and the last point shows the
magnitude (`magnitude_history_shows`).
-/

namespace Koalisi.Topology

open Koalisi.Lib Koalisi.Decision
open Koalisi.Harness (CapabilityAgent)

variable {V HE : Type}

/-! ## The code -/

/-- What a weight tells of an agent. -/
class AgentCapabilities (V : Type) where
  agentId : V → Nat
  capabilities : V → UInt32
  trustLevel : V → UInt32

/-- A weight, as the agent it tells of. -/
def AgentCapabilities.agent [AgentCapabilities V] (weight : V) : CapabilityAgent :=
  ⟨agentId weight, capabilities weight, trustLevel weight⟩

instance : AgentCapabilities CapabilityAgent := ⟨(·.id), (·.capabilities), (·.trust)⟩

open AgentCapabilities (agent)

/-- What the pass keeps: the weights of the vertices, and the members of the coalition while it
is alive. -/
@[ext]
structure FoldState (V : Type) where
  weights : VertexIndex → Option V
  members : Option (List VertexIndex)

/-- Fold one event into the state. -/
def applyEventToState (hyperedge : HyperedgeIndex) (s : FoldState V) :
    TemporalEvent V HE → FoldState V
  | .vertexAdded _ index weight =>
      { s with weights := Function.update s.weights index (some weight) }
  | .vertexWeightUpdated _ index _ newWeight =>
      { s with weights := Function.update s.weights index (some newWeight) }
  | .vertexRemoved _ index _ => { s with weights := Function.update s.weights index none }
  | .graphCleared .. => ⟨fun _ ↦ none, none⟩
  | .hyperedgeAdded _ index vertices _ =>
      if index = hyperedge then { s with members := some vertices } else s
  | .hyperedgeVerticesUpdated _ index _ newVertices =>
      if index = hyperedge then { s with members := some newVertices } else s
  -- Order-only: not a sample point, but the fold keeps membership accurate.
  | .hyperedgeReversed _ index _ newVertices =>
      if index = hyperedge then { s with members := some newVertices } else s
  | .verticesContracted _ hyperedgeIndex _ _ _ newVertices =>
      if hyperedgeIndex = hyperedge then { s with members := some newVertices } else s
  | .hyperedgesJoined _ targetIndex sourceIndices newVertices =>
      if targetIndex = hyperedge then { s with members := some newVertices }
      else if hyperedge ∈ sourceIndices then { s with members := none }
      else s
  | .hyperedgeRemoved _ index _ _ =>
      if index = hyperedge then { s with members := none } else s
  | .hyperedgesCleared .. => { s with members := none }
  | _ => s

/-- Whether an event may change the masks of a coalition with these members. -/
def isChangeRelevant (hyperedge : HyperedgeIndex) (members : Option (List VertexIndex)) :
    TemporalEvent V HE → Bool
  | .hyperedgeAdded _ index _ _ => index = hyperedge
  | .hyperedgeVerticesUpdated _ index _ _ => index = hyperedge
  | .hyperedgeRemoved _ index _ _ => index = hyperedge
  | .verticesContracted _ hyperedgeIndex _ _ _ _ => hyperedgeIndex = hyperedge
  | .hyperedgesJoined _ targetIndex sourceIndices _ =>
      targetIndex = hyperedge ∨ hyperedge ∈ sourceIndices
  | .vertexWeightUpdated _ index _ _ => members.any fun m ↦ m.contains index
  | .vertexRemoved _ index _ => members.any fun m ↦ m.contains index
  | .hyperedgesCleared .. => members.isSome
  | .graphCleared .. => members.isSome
  | _ => false

/-- The relevant masks of the members, and how many have a weight. -/
def snapshotMasks [AgentCapabilities V] (required : UInt32) (s : FoldState V) :
    List UInt32 × Nat :=
  match s.members with
  | none => ([], 0)
  | some memberIndices =>
      let resolved := memberIndices.filterMap s.weights
      (relevantMasks (resolved.map agent) required, resolved.length)

/-- The settled samples. -/
def collectMagnitudeSamples [AgentCapabilities V] (events : EventLog V HE)
    (hyperedge : HyperedgeIndex) (required : UInt32) (range : TimeRange) :
    List (Timestamp × List UInt32 × Nat) :=
  let (start, stop) := resolveWindow events range
  -- every event at or before the start of the window goes into the baseline
  let (state, rest) := drain TemporalEvent.timestamp (applyEventToState hyperedge) start
    ⟨fun _ ↦ none, none⟩ events.events
  let baseline := if start ≤ stop ∧ state.members.isSome then
    [(start, snapshotMasks required state)] else []
  baseline ++ sampleChanges TemporalEvent.timestamp (applyEventToState hyperedge)
    (fun s e ↦ isChangeRelevant hyperedge s.members e) (snapshotMasks required) stop state rest

/-- One point on a trajectory. -/
structure MagnitudePoint (K : Type) where
  timestamp : Timestamp
  /-- `⊥` stands for negative infinity. -/
  magnitude : WithBot K
  memberCount : Nat

/-- The magnitude of a point; where the engine fails, negative infinity. -/
def pointMagnitude {K : Type} [Field K] [LinearOrder K] (cg : CatgraphMagnitude K)
    (masks : List UInt32) (requiredCapabilities : UInt32) : WithBot K :=
  match magnitudeOrZero cg masks requiredCapabilities with
  | .ok m => (m : WithBot K)
  | .error _ => ⊥

/-- The magnitude trajectory of a coalition. -/
def magnitudeHistory {K : Type} [Field K] [LinearOrder K] (cg : CatgraphMagnitude K)
    [AgentCapabilities V] (events : EventLog V HE) (hyperedge : HyperedgeIndex)
    (requiredCapabilities : UInt32) (range : TimeRange) : List (MagnitudePoint K) :=
  (collectMagnitudeSamples events hyperedge requiredCapabilities range).map
    fun (timestamp, masks, memberCount) ↦
      { timestamp, magnitude := pointMagnitude cg masks requiredCapabilities, memberCount }

/-! ## What the log says -/

/-- What an event does to the weight of a vertex. -/
def weightStep (vertex : VertexIndex) (weight : Option V) : TemporalEvent V HE → Option V
  | .vertexAdded _ index w => if index = vertex then some w else weight
  | .vertexWeightUpdated _ index _ newWeight => if index = vertex then some newWeight else weight
  | .vertexRemoved _ index _ => if index = vertex then none else weight
  | .graphCleared .. => none
  | _ => weight

/-- What an event does to the members of a hyperedge. -/
def membersStep (hyperedge : HyperedgeIndex) (members : Option (List VertexIndex)) :
    TemporalEvent V HE → Option (List VertexIndex)
  | .hyperedgeAdded _ index vertices _ => if index = hyperedge then some vertices else members
  | .hyperedgeRemoved _ index _ _ => if index = hyperedge then none else members
  | .hyperedgeVerticesUpdated _ index _ newVertices =>
      if index = hyperedge then some newVertices else members
  | .hyperedgeReversed _ index _ newVertices =>
      if index = hyperedge then some newVertices else members
  | .verticesContracted _ index _ _ _ newVertices =>
      if index = hyperedge then some newVertices else members
  | .hyperedgesJoined _ targetIndex sourceIndices newVertices =>
      if targetIndex = hyperedge then some newVertices
      else if hyperedge ∈ sourceIndices then none else members
  | .hyperedgesCleared .. | .graphCleared .. => none
  | _ => members

/-- The weight that a list of events leaves a vertex with, clears included. -/
def weightLeft (es : List (TemporalEvent V HE)) (vertex : VertexIndex) : Option V :=
  es.foldl (weightStep vertex) none

/-- The members that a list of events leaves a hyperedge with, clears included. -/
def membersLeft (es : List (TemporalEvent V HE)) (hyperedge : HyperedgeIndex) :
    Option (List VertexIndex) :=
  es.foldl (membersStep hyperedge) none

/-- The agents that a list of events leaves a coalition with: its members with a weight. -/
def agentsLeft [AgentCapabilities V] (es : List (TemporalEvent V HE))
    (hyperedge : HyperedgeIndex) : List CapabilityAgent :=
  (((membersLeft es hyperedge).getD []).filterMap (weightLeft es)).map agent

theorem weightLeft_concat (es : List (TemporalEvent V HE)) (e : TemporalEvent V HE)
    (v : VertexIndex) : weightLeft (es ++ [e]) v = weightStep v (weightLeft es v) e :=
  List.foldl_concat _ _ _ _

theorem membersLeft_concat (es : List (TemporalEvent V HE)) (e : TemporalEvent V HE)
    (h : HyperedgeIndex) : membersLeft (es ++ [e]) h = membersStep h (membersLeft es h) e :=
  List.foldl_concat _ _ _ _

/-- An event does to a weight what it does to the contents of the graph. -/
theorem weightStep_effect (s : GraphState V HE) (e : TemporalEvent V HE) (v : VertexIndex) :
    weightStep v (s.vertices v) e = (e.effect s).vertices v := by
  cases e with
  | vertexAdded | vertexRemoved | vertexWeightUpdated =>
      simp [weightStep, TemporalEvent.effect, GraphState.setVertex, GraphState.dropVertex, eq_comm]
  | _ => rfl

/-- So does it to the members, if it is legal. -/
theorem membersStep_effect {s : GraphState V HE} {e : TemporalEvent V HE} (hl : e.Legal s)
    (h : HyperedgeIndex) : membersStep h ((s.hyperedges h).map Prod.fst) e =
      ((e.effect s).hyperedges h).map Prod.fst := by
  cases e with
  | hyperedgeAdded _ index vs w =>
      rcases eq_or_ne h index with rfl | hne
      · simp [membersStep, TemporalEvent.effect, GraphState.setHyperedge]
      · simp [membersStep, TemporalEvent.effect, GraphState.setHyperedge, hne, hne.symm]
  | hyperedgeRemoved _ index vs w =>
      rcases eq_or_ne h index with rfl | hne
      · simp [membersStep, TemporalEvent.effect, GraphState.dropHyperedges]
      · simp [membersStep, TemporalEvent.effect, GraphState.dropHyperedges, hne, hne.symm]
  | hyperedgeWeightUpdated _ index old new =>
      rcases eq_or_ne h index with rfl | hne
      · obtain ⟨vs, hs⟩ := hl
        simp [membersStep, TemporalEvent.effect, GraphState.setWeight, hs]
      · simp [membersStep, TemporalEvent.effect, GraphState.setWeight, hne]
  | hyperedgeVerticesUpdated _ index old new | hyperedgeReversed _ index old new
  | verticesContracted _ index _ _ old new =>
      rcases eq_or_ne h index with rfl | hne
      · obtain ⟨w, hs⟩ := hl
        simp [membersStep, TemporalEvent.effect, GraphState.setMembers, hs]
      · simp [membersStep, TemporalEvent.effect, GraphState.setMembers, hne, hne.symm]
  | hyperedgesJoined _ target sources new =>
      obtain ⟨p, hs⟩ := hl
      rcases eq_or_ne h target with rfl | hne
      · simp [membersStep, TemporalEvent.effect, GraphState.setMembers,
          GraphState.dropHyperedges, hs]
      · by_cases hm : h ∈ sources
        · simp [membersStep, TemporalEvent.effect, GraphState.setMembers,
            GraphState.dropHyperedges, hm, hne, hne.symm]
        · simp [membersStep, TemporalEvent.effect, GraphState.setMembers,
            GraphState.dropHyperedges, hm, hne, hne.symm]
  | _ => rfl

/-- After a history the weights and the members are those in the graph. -/
theorem History.left_eq {es : List (TemporalEvent V HE)} {s : GraphState V HE}
    (h : History es s) : (∀ v, weightLeft es v = s.vertices v) ∧
      ∀ x, membersLeft es x = (s.hyperedges x).map Prod.fst := by
  induction h with
  | nil => exact ⟨fun _ ↦ rfl, fun _ ↦ rfl⟩
  | snoc _ hl ih =>
      constructor
      · intro v
        rw [weightLeft_concat, ih.1, weightStep_effect]
      · intro x
        rw [membersLeft_concat, ih.2, membersStep_effect hl]

/-! ## The pass keeps what the log says -/

theorem applyEventToState_weights (h : HyperedgeIndex) (s : FoldState V)
    (e : TemporalEvent V HE) (v : VertexIndex) :
    (applyEventToState h s e).weights v = weightStep v (s.weights v) e := by
  cases e with
  | vertexAdded | vertexRemoved | vertexWeightUpdated =>
      simp [applyEventToState, weightStep, Function.update_apply, eq_comm]
  | hyperedgeAdded | hyperedgeRemoved | hyperedgeVerticesUpdated | hyperedgeReversed
  | verticesContracted =>
      rw [applyEventToState]
      split <;> rfl
  | hyperedgesJoined =>
      rw [applyEventToState]
      split
      · rfl
      · split <;> rfl
  | _ => rfl

theorem applyEventToState_members (h : HyperedgeIndex) (s : FoldState V)
    (e : TemporalEvent V HE) :
    (applyEventToState h s e).members = membersStep h s.members e := by
  cases e with
  | hyperedgeAdded | hyperedgeRemoved | hyperedgeVerticesUpdated | hyperedgeReversed
  | verticesContracted =>
      rw [applyEventToState, membersStep]
      split <;> rfl
  | hyperedgesJoined =>
      rw [applyEventToState, membersStep]
      split
      · rfl
      · split <;> rfl
  | _ => rfl

/-! ## What the samples should tell -/

/-- The events at or before an instant. -/
def eventsUpTo (es : List (TemporalEvent V HE)) (t : Timestamp) : List (TemporalEvent V HE) :=
  es.filter fun e ↦ e.timestamp ≤ t

/-- The events before an instant. -/
def eventsBefore (es : List (TemporalEvent V HE)) (t : Timestamp) : List (TemporalEvent V HE) :=
  es.filter fun e ↦ e.timestamp < t

/-- A sample tells of a coalition what a list of events leaves: of one that is alive the masks,
in some order, and the number of its members, and of one that is not, nothing. -/
structure Reports [AgentCapabilities V] (hyperedge : HyperedgeIndex) (required : UInt32)
    (sample : Option (Timestamp × List UInt32 × Nat)) (es : List (TemporalEvent V HE)) :
    Prop where
  alive : (membersLeft es hyperedge).isSome = true → ∃ t masks count,
    sample = some (t, masks, count) ∧
      masks.Perm (relevantMasks (agentsLeft es hyperedge) required) ∧
      count = (agentsLeft es hyperedge).length
  gone : membersLeft es hyperedge = none → ∀ t masks count,
    sample = some (t, masks, count) → masks = [] ∧ count = 0

namespace TemporalEvent

/-- The vertices that an event makes the members of a hyperedge. -/
def newMembers : TemporalEvent V HE → List VertexIndex
  | .hyperedgeAdded _ _ vertices _ => vertices
  | .hyperedgeVerticesUpdated _ _ _ newVertices => newVertices
  | .hyperedgeReversed _ _ _ newVertices => newVertices
  | .hyperedgesJoined _ _ _ newVertices => newVertices
  | .verticesContracted _ _ _ _ _ newVertices => newVertices
  | _ => []

end TemporalEvent

/-- A well-formed log: time does not go back, every vertex is added before it becomes a member,
and no index is added again. -/
structure WellFormed (es : List (TemporalEvent V HE)) : Prop where
  sorted : es.Pairwise fun a b ↦ a.timestamp ≤ b.timestamp
  added : ∀ i (hi : i < es.length), ∀ v ∈ (es.get ⟨i, hi⟩).newMembers,
    v ∈ (es.take i).filterMap TemporalEvent.addedVertex
  neverReused : NeverReused es

/-- Some event at an instant counts as a change of the coalition. -/
def ChangedAt (es : List (TemporalEvent V HE)) (hyperedge : HyperedgeIndex) (t : Timestamp) :
    Prop :=
  ∃ front e back, es = front ++ e :: back ∧ e.timestamp = t ∧
    isChangeRelevant hyperedge (membersLeft front hyperedge) e = true

/-- The coalition is reversed at an instant. -/
def ReversedAt (es : List (TemporalEvent V HE)) (hyperedge : HyperedgeIndex) (t : Timestamp) :
    Prop :=
  ∃ oldVertices newVertices, .hyperedgeReversed t hyperedge oldVertices newVertices ∈ es

/-- The events of an instant keep what is sampled of a coalition, and bring it to life only
where it was alive before, or there is a sample. -/
structure Keeps [AgentCapabilities V] (es : List (TemporalEvent V HE))
    (hyperedge : HyperedgeIndex) (required : UInt32) (start t : Timestamp) : Prop where
  masks : (relevantMasks (agentsLeft (eventsBefore es t) hyperedge) required).Perm
    (relevantMasks (agentsLeft (eventsUpTo es t) hyperedge) required)
  count : (agentsLeft (eventsBefore es t) hyperedge).length =
    (agentsLeft (eventsUpTo es t) hyperedge).length
  known : (membersLeft (eventsUpTo es t) hyperedge).isSome = true →
    (membersLeft (eventsBefore es t) hyperedge).isSome = true ∨
      (membersLeft (eventsUpTo es start) hyperedge).isSome = true ∨
      ∃ u, start < u ∧ u < t ∧ ChangedAt es hyperedge u

/-! ## Events that do not count -/

section Quiet

variable {es front back : List (TemporalEvent V HE)} {e : TemporalEvent V HE}
  {h : HyperedgeIndex}

theorem WellFormed.newMembers_added (hwf : WellFormed es) (hes : es = front ++ e :: back)
    {v : VertexIndex} (hv : v ∈ e.newMembers) : v ∈ front.filterMap TemporalEvent.addedVertex := by
  subst hes
  have hi : front.length < (front ++ e :: back).length := by simp
  have hadded := hwf.added front.length hi v
  rw [List.get_eq_getElem, List.getElem_append_right le_rfl, List.take_left] at hadded
  simp only [Nat.sub_self, List.getElem_cons_zero] at hadded
  exact hadded hv

/-- Members come with an event that makes them members. -/
theorem mem_membersStep {members : Option (List VertexIndex)} {v : VertexIndex}
    (hv : v ∈ (membersStep h members e).getD []) : v ∈ e.newMembers ∨ v ∈ members.getD [] := by
  cases e with
  | hyperedgeAdded | hyperedgeVerticesUpdated | hyperedgeReversed | verticesContracted =>
      rw [membersStep] at hv
      split at hv
      · exact Or.inl hv
      · exact Or.inr hv
  | hyperedgeRemoved =>
      rw [membersStep] at hv
      split at hv
      · exact absurd hv List.not_mem_nil
      · exact Or.inr hv
  | hyperedgesJoined =>
      rw [membersStep] at hv
      split at hv
      · exact Or.inl hv
      · split at hv
        · exact absurd hv List.not_mem_nil
        · exact Or.inr hv
  | hyperedgesCleared | graphCleared => exact absurd hv List.not_mem_nil
  | _ => exact Or.inr hv

theorem WellFormed.member_added (hwf : WellFormed es) (hes : es = front ++ back)
    {v : VertexIndex} (hv : v ∈ (membersLeft front h).getD []) :
    v ∈ front.filterMap TemporalEvent.addedVertex := by
  induction front using List.reverseRecOn generalizing back with
  | nil => exact absurd hv List.not_mem_nil
  | append_singleton front e ih =>
      rw [List.append_assoc, List.singleton_append] at hes
      rw [membersLeft_concat] at hv
      rw [List.filterMap_append]
      refine List.mem_append_left _ ?_
      rcases mem_membersStep hv with hv | hv
      · exact hwf.newMembers_added hes hv
      · exact ih hes hv

/-- An event that does not count as a change of a coalition, and does not reverse it, leaves it
its members and these their weights. -/
theorem WellFormed.quiet (hwf : WellFormed es) (hes : es = front ++ e :: back)
    (hq : isChangeRelevant h (membersLeft front h) e = false)
    (hr : ∀ t old new, e ≠ .hyperedgeReversed t h old new) :
    membersLeft (front ++ [e]) h = membersLeft front h ∧
      ∀ v ∈ (membersLeft front h).getD [], weightLeft (front ++ [e]) v = weightLeft front v := by
  rw [membersLeft_concat]
  simp only [weightLeft_concat]
  cases e with
  | vertexAdded t index w =>
      refine ⟨rfl, fun v hv ↦ if_neg fun hi : index = v ↦ ?_⟩
      -- a member has been added, and is not added again
      exact not_mem_of_nodup hwf.neverReused.1 hes (congrArg some hi) (hwf.member_added hes hv)
  | vertexRemoved t index w | vertexWeightUpdated t index old new =>
      refine ⟨rfl, fun v hv ↦ if_neg fun hi : index = v ↦ ?_⟩
      rw [isChangeRelevant] at hq
      cases hm : membersLeft front h with
      | none =>
          rw [hm] at hv
          exact List.not_mem_nil hv
      | some vs =>
          rw [hm] at hv hq
          have hin : vs.contains index = true := List.contains_iff_mem.mpr (hi ▸ hv)
          exact absurd (hin.symm.trans hq) (Bool.false_ne_true ∘ Eq.symm)
  | hyperedgeAdded t index | hyperedgeRemoved t index | hyperedgeVerticesUpdated t index
  | verticesContracted t index => exact ⟨if_neg (of_decide_eq_false hq), fun _ _ ↦ rfl⟩
  | hyperedgeReversed t index old new =>
      have hne : index ≠ h := fun hi ↦ hr t old new (hi ▸ rfl)
      exact ⟨if_neg hne, fun _ _ ↦ rfl⟩
  | hyperedgesJoined t target sources new =>
      obtain ⟨ht, hs⟩ := not_or.mp (of_decide_eq_false hq)
      refine ⟨?_, fun _ _ ↦ rfl⟩
      rw [membersStep, if_neg ht, if_neg hs]
  | hyperedgesCleared | graphCleared =>
      -- the coalition is not alive
      have hm : membersLeft front h = none :=
        Option.isNone_iff_eq_none.mp (Option.isSome_eq_false_iff.mp hq)
      rw [hm]
      exact ⟨rfl, fun _ hv ↦ absurd hv List.not_mem_nil⟩
  | hyperedgeWeightUpdated | snapshotMarker => exact ⟨rfl, fun _ _ ↦ rfl⟩

/-- So the agents are the same. -/
theorem WellFormed.agentsLeft_quiet [AgentCapabilities V] (hwf : WellFormed es)
    (hes : es = front ++ e :: back)
    (hq : isChangeRelevant h (membersLeft front h) e = false)
    (hr : ∀ t old new, e ≠ .hyperedgeReversed t h old new) :
    agentsLeft (front ++ [e]) h = agentsLeft front h := by
  obtain ⟨hmembers, hweights⟩ := hwf.quiet hes hq hr
  rw [agentsLeft, agentsLeft, hmembers]
  congr 1
  exact List.filterMap_congr hweights

end Quiet

/-! ## The samples over a log -/

section Fold

variable {es : List (TemporalEvent V HE)} {h : HyperedgeIndex} {t : Timestamp}

/-- The state that a list of events leaves. -/
def stateLeft (es : List (TemporalEvent V HE)) (hyperedge : HyperedgeIndex) : FoldState V :=
  ⟨weightLeft es, membersLeft es hyperedge⟩

theorem foldl_applyEventToState :
    es.foldl (applyEventToState h) ⟨fun _ ↦ none, none⟩ = stateLeft es h := by
  induction es using List.reverseRecOn with
  | nil => rfl
  | append_singleton es e ih =>
      rw [List.foldl_concat, ih]
      ext1
      · funext v
        rw [applyEventToState_weights]
        exact (weightLeft_concat es e v).symm
      · rw [applyEventToState_members]
        exact (membersLeft_concat es e h).symm

theorem changedAt_iff_notedAt : ChangedAt es h t ↔ NotedAt TemporalEvent.timestamp
    (applyEventToState h) (fun s e ↦ isChangeRelevant h s.members e) ⟨fun _ ↦ none, none⟩ es t := by
  rw [ChangedAt, NotedAt]
  simp only [foldl_applyEventToState, stateLeft]

theorem stateAt_eq : stateAt TemporalEvent.timestamp (applyEventToState h)
    ⟨fun _ ↦ none, none⟩ es t = stateLeft (eventsUpTo es t) h :=
  foldl_applyEventToState

theorem stateBefore_eq : stateBefore TemporalEvent.timestamp (applyEventToState h)
    ⟨fun _ ↦ none, none⟩ es t = stateLeft (eventsBefore es t) h :=
  foldl_applyEventToState

/-- The coalition is alive. -/
def FoldState.live (s : FoldState V) : Bool := s.members.isSome

end Fold

section Samples

variable [AgentCapabilities V] {es : List (TemporalEvent V HE)} {h : HyperedgeIndex}
  {required : UInt32} {start t : Timestamp}

theorem snapshotMasks_stateLeft : snapshotMasks required (stateLeft es h) =
    (relevantMasks (agentsLeft es h) required, (agentsLeft es h).length) := by
  rw [snapshotMasks, stateLeft, agentsLeft]
  cases membersLeft es h with
  | none => rfl
  | some vs =>
      dsimp only
      rw [Option.getD_some, List.length_map]

theorem snapshotMasks_of_not_live {s : FoldState V} (hs : s.live = false) :
    snapshotMasks required s = ([], 0) := by
  have hm : s.members = none := Option.isNone_iff_eq_none.mp (Option.isSome_eq_false_iff.mp hs)
  rw [snapshotMasks, hm]

/-- Two samples show the same: the masks in some order, and the number. -/
def SameMasks (p q : List UInt32 × Nat) : Prop := p.1.Perm q.1 ∧ p.2 = q.2

theorem sameMasks_equivalence : Equivalence SameMasks where
  refl p := ⟨List.Perm.refl p.1, rfl⟩
  symm h := ⟨h.1.symm, h.2.symm⟩
  trans h h' := ⟨h.1.trans h'.1, h.2.trans h'.2⟩

/-- A sample reports what the log leaves just if it tells of the state of the pass. -/
theorem reports_iff_tells {sample : Option (Timestamp × List UInt32 × Nat)} :
    Reports h required sample es ↔
      Tells SameMasks (snapshotMasks required) FoldState.live sample (stateLeft es h) := by
  constructor
  · rintro ⟨halive, hgone⟩
    refine ⟨fun hlive ↦ ?_, ?_⟩
    · obtain ⟨t, masks, count, hsample, -⟩ := halive hlive
      exact ⟨_, hsample⟩
    · rintro ⟨t, masks, count⟩ hsample
      rw [snapshotMasks_stateLeft]
      cases hm : membersLeft es h with
      | none =>
          obtain ⟨rfl, rfl⟩ := hgone hm t masks count hsample
          rw [agentsLeft, hm]
          exact ⟨List.Perm.refl [], rfl⟩
      | some vs =>
          obtain ⟨t', masks', count', hsample', hmasks, hcount⟩ := halive (hm ▸ rfl)
          rw [hsample, Option.some_inj] at hsample'
          cases hsample'
          exact ⟨hmasks, hcount⟩
  · rintro ⟨htold, hright⟩
    constructor
    · intro hlive
      obtain ⟨⟨t, masks, count⟩, hsample⟩ := htold hlive
      have hsame := hright _ hsample
      rw [snapshotMasks_stateLeft] at hsame
      exact ⟨t, masks, count, hsample, hsame.1, hsame.2⟩
    · intro hm t masks count hsample
      have hsame := hright _ hsample
      have hdead : (stateLeft es h).live = false := congrArg Option.isSome hm
      rw [snapshotMasks_of_not_live hdead] at hsame
      exact ⟨hsame.1.eq_nil, hsame.2⟩

/-- Nothing that a sample would show is different. -/
def FoldState.Same (required : UInt32) (s s' : FoldState V) : Prop :=
  s.live = s'.live ∧ SameMasks (snapshotMasks required s) (snapshotMasks required s')

variable (required) in
/-- In a well-formed log, an instant at which nothing counts as a change of the coalition leaves
it the same, if the reversals do. -/
theorem WellFormed.same_upTo (hwf : WellFormed es) (hn : ¬ChangedAt es h t)
    (hturn : ∀ front old new back, es = front ++ .hyperedgeReversed t h old new :: back →
      (stateLeft front h).Same required
        (stateLeft (front ++ [.hyperedgeReversed t h old new]) h)) :
    (stateLeft (eventsBefore es t) h).Same required (stateLeft (eventsUpTo es t) h) := by
  rw [← stateAt_eq, ← stateBefore_eq]
  refine kept_of_unnoted (R := FoldState.Same required) ?_ ?_ hwf.sorted ?_
    fun h ↦ hn (changedAt_iff_notedAt.mpr h)
  · exact fun s ↦ ⟨rfl, sameMasks_equivalence.refl _⟩
  · exact fun _ _ _ h h' ↦ ⟨h.1.trans h'.1, sameMasks_equivalence.trans h.2 h'.2⟩
  intro front e back hes htime hq
  rw [← List.foldl_concat (applyEventToState h), foldl_applyEventToState,
    foldl_applyEventToState]
  rw [foldl_applyEventToState] at hq
  by_cases hr : ∃ t' old new, e = .hyperedgeReversed t' h old new
  · obtain ⟨t', old, new, rfl⟩ := hr
    cases htime
    exact hturn front old new back hes
  · have hr : ∀ t' old new, e ≠ .hyperedgeReversed t' h old new :=
      fun t' old new he ↦ hr ⟨t', old, new, he⟩
    have hmembers := (hwf.quiet hes hq hr).1
    have hagents := hwf.agentsLeft_quiet hes hq hr
    refine ⟨congrArg Option.isSome hmembers.symm, ?_⟩
    rw [snapshotMasks_stateLeft, snapshotMasks_stateLeft, hagents]
    exact sameMasks_equivalence.refl _

theorem keeps_iff : Keeps es h required start t ↔
    SameMasks (snapshotMasks required (stateLeft (eventsBefore es t) h))
      (snapshotMasks required (stateLeft (eventsUpTo es t) h)) ∧
    ((stateLeft (eventsUpTo es t) h).live = true →
      (stateLeft (eventsBefore es t) h).live = true ∨
      (stateLeft (eventsUpTo es start) h).live = true ∨
      ∃ u, start < u ∧ u < t ∧ ChangedAt es h u) := by
  rw [snapshotMasks_stateLeft, snapshotMasks_stateLeft]
  constructor
  · rintro ⟨hmasks, hcount, hknown⟩
    exact ⟨⟨hmasks, hcount⟩, hknown⟩
  · rintro ⟨⟨hmasks, hcount⟩, hknown⟩
    exact ⟨hmasks, hcount, hknown⟩

/-- Over a sorted log, the samples report the coalition at every instant of the window, if and
only if it is kept at every instant at which nothing counts as a change of it. -/
theorem reports_iff_keeps {events : EventLog V HE} {range : TimeRange}
    (hsorted : events.events.Pairwise fun a b ↦ a.timestamp ≤ b.timestamp) :
    (∀ t, (resolveWindow events range).1 ≤ t → t ≤ (resolveWindow events range).2 →
      Reports h required (lastSample (collectMagnitudeSamples events h required range) t)
        (eventsUpTo events.events t)) ↔
    ∀ t, (resolveWindow events range).1 < t → t ≤ (resolveWindow events range).2 →
      ¬ChangedAt events.events h t →
      Keeps events.events h required (resolveWindow events range).1 t := by
  have hsamples : collectMagnitudeSamples events h required range =
      sampled TemporalEvent.timestamp (applyEventToState h)
        (fun s e ↦ isChangeRelevant h s.members e) (snapshotMasks required)
        FoldState.live (resolveWindow events range).1 (resolveWindow events range).2
        ⟨fun _ ↦ none, none⟩ events.events := rfl
  have hdead : ∀ s s' : FoldState V, s.live = false → s'.live = false →
      SameMasks (snapshotMasks required s) (snapshotMasks required s') := by
    intro s s' hs hs'
    rw [snapshotMasks_of_not_live hs, snapshotMasks_of_not_live hs']
    exact sameMasks_equivalence.refl _
  rw [hsamples]
  simp only [reports_iff_tells, keeps_iff, changedAt_iff_notedAt, ← stateAt_eq, ← stateBefore_eq]
  exact sampled_tells_iff hsorted sameMasks_equivalence hdead

/-- The samples report the coalition at every instant of the window, if and only if it is kept
at every instant at which it is reversed and nothing counts as a change of it. -/
theorem magnitude_history_complete_iff (events : EventLog V HE) (hwf : WellFormed events.events)
    (hyperedge : HyperedgeIndex) (required : UInt32) (range : TimeRange) :
    (∀ t, (resolveWindow events range).1 ≤ t → t ≤ (resolveWindow events range).2 →
      Reports hyperedge required
        (lastSample (collectMagnitudeSamples events hyperedge required range) t)
        (eventsUpTo events.events t)) ↔
    ∀ t, (resolveWindow events range).1 < t → t ≤ (resolveWindow events range).2 →
      ReversedAt events.events hyperedge t → ¬ChangedAt events.events hyperedge t →
      Keeps events.events hyperedge required (resolveWindow events range).1 t := by
  rw [reports_iff_keeps hwf.sorted]
  constructor
  · intro h t hstart hstop _ hn
    exact h t hstart hstop hn
  · intro h t hstart hstop hn
    by_cases hr : ReversedAt events.events hyperedge t
    · exact h t hstart hstop hr hn
    · have hsame := hwf.same_upTo required hn fun front old new back hes ↦
        absurd ⟨old, new, hes ▸ List.mem_append_right front List.mem_cons_self⟩ hr
      refine keeps_iff.mpr ⟨hsame.2, fun hlive ↦ Or.inl ?_⟩
      exact hsame.1.trans hlive

/-- Turning the members around keeps what is sampled, if members of one id hold the same. -/
theorem same_of_turn {t : Timestamp} {vs old new : List VertexIndex}
    (hvs : membersLeft es h = some vs) (hperm : new.Perm vs)
    (hnames : ∀ a ∈ agentsLeft es h, ∀ b ∈ agentsLeft es h,
      a.id = b.id → a.capabilities = b.capabilities) :
    (stateLeft es h).Same required (stateLeft (es ++ [.hyperedgeReversed t h old new]) h) := by
  have hmembers : membersLeft (es ++ [.hyperedgeReversed t h old new]) h = some new := by
    rw [membersLeft_concat]
    exact if_pos rfl
  have hweights : weightLeft (es ++ [.hyperedgeReversed t h old new]) = weightLeft es := by
    funext v
    exact weightLeft_concat es _ v
  have hagents : (agentsLeft es h).Perm
      (agentsLeft (es ++ [.hyperedgeReversed t h old new]) h) := by
    rw [agentsLeft, agentsLeft, hmembers, hweights, hvs]
    exact (hperm.symm.filterMap _).map _
  constructor
  · change (membersLeft es h).isSome = (membersLeft _ h).isSome
    rw [hvs, hmembers]
    rfl
  · rw [snapshotMasks_stateLeft, snapshotMasks_stateLeft]
    exact ⟨relevantMasks_perm hagents hnames, hagents.length_eq⟩

/-- The samples report the coalition at every instant of the window, if a reversal only
reorders its members and no two of these have one id and hold different things. -/
theorem magnitude_history_complete {events : EventLog V HE} (hwf : WellFormed events.events)
    (hturns : ∀ front t old new back,
      events.events = front ++ .hyperedgeReversed t h old new :: back →
      (∃ vs, membersLeft front h = some vs ∧ new.Perm vs) ∧
      ∀ a ∈ agentsLeft front h, ∀ b ∈ agentsLeft front h,
        a.id = b.id → a.capabilities = b.capabilities)
    {range : TimeRange} (hstart : (resolveWindow events range).1 ≤ t)
    (hstop : t ≤ (resolveWindow events range).2) :
    Reports h required (lastSample (collectMagnitudeSamples events h required range) t)
      (eventsUpTo events.events t) := by
  refine (reports_iff_keeps hwf.sorted).mpr ?_ t hstart hstop
  intro u _ _ hn
  have hsame := hwf.same_upTo required hn fun front old new back hes ↦ by
    obtain ⟨⟨vs, hvs, hperm⟩, hnames⟩ := hturns front u old new back hes
    exact same_of_turn hvs hperm hnames
  exact keeps_iff.mpr ⟨hsame.2, fun hlive ↦ Or.inl (hsame.1.trans hlive)⟩

section Points

variable {K : Type} [Field K] [LinearOrder K] {cg : CatgraphMagnitude K}

theorem pointMagnitude_eq (masks : List UInt32) : pointMagnitude cg masks required =
    ((magnitudeOrZero cg masks required).toOption.map WithBot.some).getD ⊥ := by
  rw [pointMagnitude]
  cases magnitudeOrZero cg masks required <;> rfl

/-- Where the last sample reports a coalition that is alive, the last point of its trajectory
has its magnitude and the number of its members. -/
theorem magnitude_history_shows [IsStrictOrderedRing K] (hcg : cg.Exact)
    {events : EventLog V HE} {range : TimeRange}
    (hreports : Reports h required
      (lastSample (collectMagnitudeSamples events h required range) t) (eventsUpTo events.events t))
    (halive : (membersLeft (eventsUpTo events.events t) h).isSome = true) :
    ∃ p, ((magnitudeHistory cg events h required range).filter
        fun p ↦ p.timestamp ≤ t).getLast? = some p ∧
      p.magnitude = pointMagnitude cg
        (relevantMasks (agentsLeft (eventsUpTo events.events t) h) required) required ∧
      p.memberCount = (agentsLeft (eventsUpTo events.events t) h).length := by
  obtain ⟨u, masks, count, hsample, hmasks, hcount⟩ := hreports.alive halive
  refine ⟨⟨u, pointMagnitude cg masks required, count⟩, ?_, ?_, hcount⟩
  · rw [magnitudeHistory, List.filter_map, List.getLast?_map]
    exact congrArg (Option.map _) hsample
  · dsimp only
    rw [pointMagnitude_eq, pointMagnitude_eq, magnitudeOrZero_perm hcg hmasks]

end Points

end Samples

/-! ## Namesakes -/

/-- Three agents form a coalition and turn around.  Two of them have one id and hold different
things, so that another one of them counts. -/
def Sample.namesakes : EventLog CapabilityAgent Nat :=
  .ofEvents [.vertexAdded 0 0 ⟨7, 0b01, 0⟩, .vertexAdded 1 1 ⟨7, 0b10, 0⟩,
    .vertexAdded 2 2 ⟨8, 0b10, 0⟩, .hyperedgeAdded 3 0 [0, 1, 2] 0,
    .hyperedgeReversed 4 0 [0, 1, 2] [2, 1, 0]]

theorem Sample.namesakes_wellFormed : WellFormed Sample.namesakes.events := by
  rw [Sample.namesakes, EventLog.events_ofEvents]
  exact ⟨by decide, by decide, by decide, by decide⟩

/-- The coalition has the masks 01 and 10, and after it has turned around 10 and 10, of which
there is no sample. -/
theorem magnitude_history_misses_a_turn : WellFormed Sample.namesakes.events ∧
    ¬∀ t, (resolveWindow Sample.namesakes (TimeRange.between 0 4)).1 ≤ t →
      t ≤ (resolveWindow Sample.namesakes (TimeRange.between 0 4)).2 →
      Reports 0 0b11
        (lastSample (collectMagnitudeSamples Sample.namesakes 0 0b11 (TimeRange.between 0 4)) t)
        (eventsUpTo Sample.namesakes.events t) := by
  refine ⟨Sample.namesakes_wellFormed, fun h ↦ ?_⟩
  have hsamples : collectMagnitudeSamples Sample.namesakes 0 0b11 (TimeRange.between 0 4) =
      [(3, [0b01, 0b10], 3)] := by decide +kernel
  have hagents : relevantMasks (agentsLeft (eventsUpTo Sample.namesakes.events 4) 0) 0b11 =
      [0b10, 0b10] := by decide
  obtain ⟨u, masks, count, hsample, hmasks, -⟩ :=
    (h 4 (by decide) (by decide)).alive (by decide)
  rw [hagents] at hmasks
  rw [hsamples] at hsample
  have hone : (0b01 : UInt32) ∈ masks := by
    cases hsample
    exact List.mem_cons_self
  exact absurd (hmasks.subset hone) (by decide)

/-- The coalition that turns around is not reported, and indeed not kept. -/
theorem magnitude_history_complete_iff_namesakes :
    (∀ t, (resolveWindow Sample.namesakes (TimeRange.between 0 4)).1 ≤ t →
      t ≤ (resolveWindow Sample.namesakes (TimeRange.between 0 4)).2 →
      Reports 0 0b11
        (lastSample (collectMagnitudeSamples Sample.namesakes 0 0b11 (TimeRange.between 0 4)) t)
        (eventsUpTo Sample.namesakes.events t)) ↔
    ∀ t, (resolveWindow Sample.namesakes (TimeRange.between 0 4)).1 < t →
      t ≤ (resolveWindow Sample.namesakes (TimeRange.between 0 4)).2 →
      ReversedAt Sample.namesakes.events 0 t → ¬ChangedAt Sample.namesakes.events 0 t →
      Keeps Sample.namesakes.events 0 0b11
        (resolveWindow Sample.namesakes (TimeRange.between 0 4)).1 t :=
  magnitude_history_complete_iff Sample.namesakes Sample.namesakes_wellFormed 0 0b11
    (TimeRange.between 0 4)

end Koalisi.Topology
