import Mathlib.Algebra.Order.BigOperators.Group.List
import Koalisi.Lib.Counting
import Koalisi.Topology.Lookups

/-!
# Activity in a window

What happened in a window is counted by the vertex or the hyperedge it happened to, or by the type
of the event.  The first two counts are ranked, and the most active come out.

The counts are kept in a hash map.  In which order its entries come out is not known, so the model
takes it as an argument, `order`, which may be any rearrangement; what is ranked and cut short is
known up to which of the equally active come first.

The events of a hyperedge are also found by its index, and the two agree (`most_active_hyperedges`).
Of vertices more is counted than the index files: those of a new hyperedge, and those of a changed
one, before and after.
-/

namespace Koalisi.Topology

open Koalisi.Lib Koalisi.Lib.Timeline

variable {V HE : Type}

namespace TemporalEvent

/-- The vertices an event counts for, as often as it does. -/
def activeVertices : TemporalEvent V HE → List VertexIndex
  | .vertexAdded _ index _ => [index]
  | .vertexRemoved _ index _ => [index]
  | .vertexWeightUpdated _ index _ _ => [index]
  | .hyperedgeAdded _ _ vertices _ => vertices
  | .hyperedgeVerticesUpdated _ _ oldVertices newVertices => oldVertices ++ newVertices
  | .verticesContracted _ _ contractedVertices targetVertex _ _ =>
      contractedVertices ++ [targetVertex]
  | _ => []

/-- The hyperedges an event counts for, as often as it does. -/
def activeHyperedges : TemporalEvent V HE → List HyperedgeIndex
  | .hyperedgeAdded _ index _ _ => [index]
  | .hyperedgeRemoved _ index _ _ => [index]
  | .hyperedgeWeightUpdated _ index _ _ => [index]
  | .hyperedgeVerticesUpdated _ index _ _ => [index]
  | .hyperedgeReversed _ index _ _ => [index]
  | .hyperedgesJoined _ targetIndex sourceIndices _ => targetIndex :: sourceIndices
  | .verticesContracted _ hyperedgeIndex _ _ _ _ => [hyperedgeIndex]
  | _ => []

/-- An event counts for the hyperedges it is filed under. -/
theorem activeHyperedges_eq (event : TemporalEvent V HE) :
    event.activeHyperedges = event.hyperedgeKeys := by
  cases event <;> rfl

/-- An event counts for the vertices it is filed under. -/
theorem count_vertexKeys_le (event : TemporalEvent V HE) (v : VertexIndex) :
    event.vertexKeys.count v ≤ event.activeVertices.count v := by
  cases event with
  | verticesContracted _ _ contracted target _ _ =>
      exact (List.perm_append_comm.count_eq v).le
  | vertexAdded | vertexRemoved | vertexWeightUpdated => exact le_rfl
  | _ => exact Nat.zero_le _

end TemporalEvent

section Counts

variable {K : Type} [Ord K]

/-- Count what the events of a range count for. -/
def activity (keys : TemporalEvent V HE → List K) (events : List (TemporalEvent V HE)) :
    Counts K :=
  events.foldl (fun counts event ↦ (keys event).foldl Counts.bump counts) ∅

/-- The entries with the greatest counts, `limit` at most.  `order` is the hash map's. -/
def mostActive (order : List (K × Nat) → List (K × Nat))
    (keys : TemporalEvent V HE → List K) (events : List (TemporalEvent V HE)) (limit : Nat) :
    List (K × Nat) :=
  (ranking Prod.snd (order (activity keys events).toList)).take limit

end Counts

namespace EventLog

/-- The most active vertices. -/
def mostActiveVertices (order : List (VertexIndex × Nat) → List (VertexIndex × Nat))
    (checksEmpty : Bool) (log : EventLog V HE) (range : TimeRange) (limit : Nat) :
    Option (List (VertexIndex × Nat)) :=
  (log.eventsInRange checksEmpty range).map fun events ↦
    mostActive order TemporalEvent.activeVertices events limit

/-- The most active hyperedges. -/
def mostActiveHyperedges (order : List (HyperedgeIndex × Nat) → List (HyperedgeIndex × Nat))
    (checksEmpty : Bool) (log : EventLog V HE) (range : TimeRange) (limit : Nat) :
    Option (List (HyperedgeIndex × Nat)) :=
  (log.eventsInRange checksEmpty range).map fun events ↦
    mostActive order TemporalEvent.activeHyperedges events limit

/-- How many events there are in a time range. -/
def eventCountInRange (checksEmpty : Bool) (log : EventLog V HE) (range : TimeRange) :
    Option Nat :=
  (log.eventsInRange checksEmpty range).map List.length

/-- Event counts by type. -/
def eventsByType (checksEmpty : Bool) (log : EventLog V HE) (range : TimeRange) :
    Option (Counts String) :=
  (log.eventsInRange checksEmpty range).map fun events ↦
    activity (fun event ↦ [event.eventType]) events

end EventLog

/-! ## What is counted -/

section Counts

variable {K : Type} [Ord K] [Std.TransOrd K] [Std.LawfulEqOrd K] [DecidableEq K]
variable {keys : TemporalEvent V HE → List K} {events : List (TemporalEvent V HE)}

/-- A key is counted once for every time an event names it. -/
theorem counted_activity (keys : TemporalEvent V HE → List K)
    (events : List (TemporalEvent V HE)) :
    (activity keys events).Counted (events.flatMap keys) := by
  have hfold : ∀ {ks : List K} {m : Counts K}, m.Counted ks →
      (events.foldl (fun counts event ↦ (keys event).foldl Counts.bump counts) m).Counted
        (ks ++ events.flatMap keys) := by
    induction events with
    | nil =>
        intro ks m h
        rwa [List.flatMap_nil, List.append_nil]
    | cons event events ih =>
        intro ks m h
        rw [List.flatMap_cons, ← List.append_assoc]
        exact ih (h.foldl _)
  exact hfold .empty

/-- The most active keys: which they may be. -/
structure Leads (ks : List K) (limit : Nat) (leaders : List (K × Nat)) : Prop where
  nodup : (leaders.map Prod.fst).Nodup
  /-- Each comes with how often it occurs, which is at least once. -/
  counted : ∀ entry ∈ leaders, entry.2 = ks.count entry.1 ∧ 0 < entry.2
  /-- The greater counts come first. -/
  descending : leaders.Pairwise fun a b ↦ b.2 ≤ a.2
  length : leaders.length = min limit ks.dedup.length
  /-- What is left out does not occur more often. -/
  leftOut : ∀ k, k ∉ leaders.map Prod.fst → ∀ entry ∈ leaders, ks.count k ≤ entry.2

/-- However the hash map orders its entries, the most active keys come out. -/
theorem leads_mostActive {order : List (K × Nat) → List (K × Nat)}
    (horder : ∀ entries, (order entries).Perm entries)
    (keys : TemporalEvent V HE → List K) (events : List (TemporalEvent V HE)) (limit : Nat) :
    Leads (events.flatMap keys) limit (mostActive order keys events limit) := by
  have hcounted := counted_activity keys events
  have hmem : ∀ entry ∈ mostActive order keys events limit,
      entry.1 ∈ events.flatMap keys ∧ entry.2 = (events.flatMap keys).count entry.1 := by
    intro entry hentry
    refine (hcounted.mem_toList_iff entry).mp ((horder _).mem_iff.mp ?_)
    exact (chronicle.mem_iff _).mp (List.mem_of_mem_take hentry)
  have hperm : (ranking Prod.snd (order (activity keys events).toList)).Perm
      (activity keys events).toList := (chronicle.perm _ _).trans (horder _)
  constructor
  case nodup =>
    refine List.Nodup.sublist ((List.take_sublist _ _).map _) ?_
    rw [(hperm.map Prod.fst).nodup_iff, Std.TreeMap.map_fst_toList_eq_keys]
    exact Std.TreeMap.nodup_keys
  case counted =>
    intro entry hentry
    obtain ⟨hin, hcount⟩ := hmem entry hentry
    exact ⟨hcount, hcount ▸ List.count_pos_iff.mpr hin⟩
  case descending => exact pairwise_take_ranking _ _ _
  case length =>
    rw [mostActive, List.length_take, hperm.length_eq, ← hcounted.keys_perm.length_eq,
      ← Std.TreeMap.map_fst_toList_eq_keys, List.length_map]
  case leftOut =>
    intro k hk entry hentry
    by_cases hin : k ∈ events.flatMap keys
    · have hboth : (k, (events.flatMap keys).count k) ∈ order (activity keys events).toList :=
        (horder _).mem_iff.mpr ((hcounted.mem_toList_iff _).mpr ⟨hin, rfl⟩)
      exact le_of_mem_take_ranking hentry hboth fun hleader ↦
        hk (List.mem_map.mpr ⟨_, hleader, rfl⟩)
    · rw [List.count_eq_zero_of_not_mem hin]
      exact Nat.zero_le _

end Counts

/-! ## The window -/

/-- Whether an event is between the bounds of a range. -/
def TimeRange.covers (range : TimeRange) (event : TemporalEvent V HE) : Bool :=
  range.start.getD Timestamp.epoch ≤ event.timestamp ∧
    event.timestamp < range.stop.getD Timestamp.max

theorem Leads.of_perm {K : Type} [DecidableEq K] {ks ks' : List K} {limit : Nat}
    {leaders : List (K × Nat)} (h : Leads ks limit leaders) (hperm : ks.Perm ks') :
    Leads ks' limit leaders where
  nodup := h.nodup
  counted entry hentry := by
    rw [← hperm.count_eq]
    exact h.counted entry hentry
  descending := h.descending
  length := by rw [h.length, hperm.dedup.length_eq]
  leftOut k hk entry hentry := by
    rw [← hperm.count_eq]
    exact h.leftOut k hk entry hentry

/-- The history of a key in a part of the log has an entry for every time it is named there. -/
theorem count_flatMap_eq_mentions {K : Type} [DecidableEq K] (keys : TemporalEvent V HE → List K)
    (p : TemporalEvent V HE → Bool) (k : K) (events : List (TemporalEvent V HE)) :
    ((events.filter p).flatMap keys).count k = ((mentions keys k events).filter p).length := by
  induction events with
  | nil => rfl
  | cons event events ih =>
      rw [← List.singleton_append, mentions_append, mentions_singleton, List.filter_append,
        List.filter_append, List.flatMap_append, List.count_append, List.length_append, ih,
        List.filter_replicate, List.filter_singleton]
      cases p event with
      | true => simp
      | false => rfl

section Window

variable (checksEmpty : Bool) (log : EventLog V HE) {range : TimeRange}

/-- What the events of a window count for, as the window is read from the log. -/
theorem leads_in_window {K : Type} [Ord K] [Std.TransOrd K] [Std.LawfulEqOrd K] [DecidableEq K]
    {order : List (K × Nat) → List (K × Nat)} (horder : ∀ entries, (order entries).Perm entries)
    (keys : TemporalEvent V HE → List K) (limit : Nat) (hrange : range.Upright) :
    ∃ leaders, (log.eventsInRange checksEmpty range).map
        (fun events ↦ mostActive order keys events limit) = some leaders ∧
      Leads ((log.events.filter range.covers).flatMap keys) limit leaders := by
  rw [EventLog.eventsInRange_eq (Or.inl hrange)]
  refine ⟨_, rfl, (leads_mostActive horder keys _ limit).of_perm ?_⟩
  exact (chronicle.perm TemporalEvent.timestamp (log.events.filter range.covers)).flatMap_right _

/-- **Activity.**  Over any window that does not end before it starts, and however the hash map
orders its entries, the most active vertices and hyperedges come out, each with its number of
events.  For a hyperedge that is how many events its own history has in the window; for a vertex it
is at least that many. -/
theorem most_active_lead {order : List (Nat × Nat) → List (Nat × Nat)}
    (horder : ∀ entries, (order entries).Perm entries) (hrange : range.Upright) (limit : Nat) :
    (∃ leaders, log.mostActiveVertices order checksEmpty range limit = some leaders ∧
      Leads ((log.events.filter range.covers).flatMap TemporalEvent.activeVertices) limit
        leaders ∧
      ∀ entry ∈ leaders,
        ((log.vertexEvents entry.1).filter range.covers).length ≤ entry.2) ∧
    ∃ leaders, log.mostActiveHyperedges order checksEmpty range limit = some leaders ∧
      Leads ((log.events.filter range.covers).flatMap TemporalEvent.activeHyperedges) limit
        leaders ∧
      ∀ entry ∈ leaders,
        entry.2 = ((log.hyperedgeEvents entry.1).filter range.covers).length := by
  obtain ⟨vertices, hvertices, hleadsV⟩ := leads_in_window checksEmpty log horder
    TemporalEvent.activeVertices limit hrange
  obtain ⟨hyperedges, hhyperedges, hleadsH⟩ := leads_in_window checksEmpty log horder
    TemporalEvent.activeHyperedges limit hrange
  refine ⟨⟨vertices, hvertices, hleadsV, fun entry hentry ↦ ?_⟩,
    ⟨hyperedges, hhyperedges, hleadsH, fun entry hentry ↦ ?_⟩⟩
  · rw [(hleadsV.counted entry hentry).1, log.vertexEvents_eq, ← count_flatMap_eq_mentions,
      List.count_flatMap, List.count_flatMap]
    exact List.sum_le_sum fun event _ ↦ event.count_vertexKeys_le entry.1
  · rw [(hleadsH.counted entry hentry).1, log.hyperedgeEvents_eq, ← count_flatMap_eq_mentions]
    exact congrArg (List.count entry.1)
      (List.flatMap_congr fun event _ ↦ event.activeHyperedges_eq)

/-- Vertex 1 is added, and is then one of two in a new hyperedge: it is the most active. -/
theorem vertex_one_leads :
    (∀ entries : List (Nat × Nat), entries.reverse.Perm entries) ∧ TimeRange.all.Upright ∧
      ∃ leaders, (EventLog.ofEvents [.vertexAdded 1 1 (), .hyperedgeAdded 2 0 [1, 2] ()] :
          EventLog Unit Unit).mostActiveVertices List.reverse true .all 1 = some leaders ∧
        leaders.map Prod.snd = [2] := by
  have horder : ∀ entries : List (Nat × Nat), entries.reverse.Perm entries :=
    fun entries ↦ entries.reverse_perm
  have hrange : TimeRange.all.Upright := TimeRange.all.upright_iff.mpr (Timestamp.epoch_le _)
  obtain ⟨⟨leaders, hleaders, hleads, -⟩, -⟩ := most_active_lead true
    (EventLog.ofEvents [.vertexAdded 1 1 (), .hyperedgeAdded 2 0 [1, 2] ()] : EventLog Unit Unit)
    horder hrange 1
  rw [EventLog.events_ofEvents] at hleads
  have hks : (([.vertexAdded 1 1 (), .hyperedgeAdded 2 0 [1, 2] ()] :
      List (TemporalEvent Unit Unit)).filter TimeRange.all.covers).flatMap
        TemporalEvent.activeVertices = [1, 1, 2] := by decide
  rw [hks] at hleads
  refine ⟨horder, hrange, leaders, hleaders, ?_⟩
  obtain ⟨⟨k, n⟩, rfl⟩ := List.length_eq_one_iff.mp (hleads.length.trans rfl)
  obtain ⟨hn, hpos⟩ := hleads.counted _ (List.mem_singleton_self _)
  change n = List.count k [1, 1, 2] at hn
  subst hn
  -- vertex 1 is named twice, so it is not left out behind one that is named once
  have hone := hleads.leftOut 1
  have hk : k ∈ [1, 1, 2] := List.count_pos_iff.mp hpos
  simp only [List.mem_cons, List.not_mem_nil, or_false] at hk
  rcases hk with rfl | rfl | rfl
  · rfl
  · rfl
  · exact absurd (hone (by decide) _ (List.mem_singleton_self _)) (by decide)

end Window

/-! ## By type -/

/-- The counts by type and the statistics of a range both add up to its number of events. -/
theorem eventsByType_agrees {checksEmpty : Bool} {log : EventLog V HE} {range : TimeRange}
    {events : List (TemporalEvent V HE)} (h : log.eventsInRange checksEmpty range = some events) :
    ∃ counts stats, log.eventsByType checksEmpty range = some counts ∧
      log.statsInRange checksEmpty range = some stats ∧
      log.eventCountInRange checksEmpty range = some stats.total ∧
      (counts.toList.map Prod.snd).sum = stats.total := by
  refine ⟨_, _, congrArg (Option.map _) h, congrArg (Option.map _) h, ?_, ?_⟩
  · rw [EventLog.eventCountInRange, h]
    exact congrArg some (EventStats.total_tally events).symm
  · have hlength : (events.flatMap fun event ↦ [event.eventType]).length = events.length := by
      rw [← List.map_eq_flatMap, List.length_map]
    exact ((counted_activity _ events).sum_toList.trans hlength).trans
      (EventStats.total_tally events).symm

end Koalisi.Topology
