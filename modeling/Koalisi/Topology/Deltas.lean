import Koalisi.Topology.Ranges

/-!
# Deltas

A delta sorts the changes of a stretch of the log into twelve lists, one per kind of
change.  `changes` says what the lists hold; the loop of the source appends to them one
event at a time and comes to the same (`foldl_record`).

The stretch is asked for as the half-open range from `from` to `to`, and the events at
`from` are then skipped.  So a delta reports what happened strictly between its two
ends.  Nothing reports what happened at `to`: neither this delta nor the one that
starts there.
-/

namespace Koalisi.Topology

open Koalisi.Lib

variable {V HE : Type}

/-- Changes between two timestamps. -/
structure GraphDelta (V HE : Type) where
  /-- Vertices added during this period. -/
  verticesAdded : List (VertexIndex × V)
  /-- Vertices removed during this period. -/
  verticesRemoved : List (VertexIndex × V)
  /-- Vertices whose weight was updated: old weight, new weight. -/
  verticesUpdated : List (VertexIndex × V × V)
  /-- Hyperedges added during this period. -/
  hyperedgesAdded : List (HyperedgeIndex × List VertexIndex × HE)
  /-- Hyperedges removed during this period. -/
  hyperedgesRemoved : List (HyperedgeIndex × List VertexIndex × HE)
  /-- Hyperedges whose weight was updated: old weight, new weight. -/
  hyperedgesWeightUpdated : List (HyperedgeIndex × HE × HE)
  /-- Hyperedges whose vertices were updated: old vertices, new vertices. -/
  hyperedgesVerticesUpdated : List (HyperedgeIndex × List VertexIndex × List VertexIndex)
  /-- Hyperedges that were reversed. -/
  hyperedgesReversed : List HyperedgeIndex
  /-- Hyperedges that were joined: target, sources. -/
  hyperedgesJoined : List (HyperedgeIndex × List HyperedgeIndex)
  /-- Vertex contractions that occurred. -/
  contractions : List (HyperedgeIndex × List VertexIndex × VertexIndex)
  /-- Clears of the hyperedges: timestamp, count cleared. -/
  hyperedgesCleared : List (Timestamp × Nat)
  /-- Clears of the graph: timestamp, vertex count, hyperedge count. -/
  graphCleared : List (Timestamp × Nat × Nat)
deriving DecidableEq, Repr

namespace GraphDelta

/-- No change. -/
def default : GraphDelta V HE := ⟨[], [], [], [], [], [], [], [], [], [], [], []⟩

/-- The total number of changes. -/
def changeCount (delta : GraphDelta V HE) : Nat :=
  delta.verticesAdded.length + delta.verticesRemoved.length + delta.verticesUpdated.length +
    delta.hyperedgesAdded.length + delta.hyperedgesRemoved.length +
    delta.hyperedgesWeightUpdated.length + delta.hyperedgesVerticesUpdated.length +
    delta.hyperedgesReversed.length + delta.hyperedgesJoined.length +
    delta.contractions.length + delta.hyperedgesCleared.length + delta.graphCleared.length

/-- Push an event onto the list of its kind; markers are bookkeeping, not changes. -/
def record (delta : GraphDelta V HE) : TemporalEvent V HE → GraphDelta V HE
  | .vertexAdded _ index weight =>
      { delta with verticesAdded := delta.verticesAdded ++ [(index, weight)] }
  | .vertexRemoved _ index weight =>
      { delta with verticesRemoved := delta.verticesRemoved ++ [(index, weight)] }
  | .vertexWeightUpdated _ index oldWeight newWeight =>
      { delta with verticesUpdated := delta.verticesUpdated ++ [(index, oldWeight, newWeight)] }
  | .hyperedgeAdded _ index vertices weight =>
      { delta with hyperedgesAdded := delta.hyperedgesAdded ++ [(index, vertices, weight)] }
  | .hyperedgeRemoved _ index vertices weight =>
      { delta with hyperedgesRemoved := delta.hyperedgesRemoved ++ [(index, vertices, weight)] }
  | .hyperedgeWeightUpdated _ index oldWeight newWeight =>
      { delta with
        hyperedgesWeightUpdated :=
          delta.hyperedgesWeightUpdated ++ [(index, oldWeight, newWeight)] }
  | .hyperedgeVerticesUpdated _ index oldVertices newVertices =>
      { delta with
        hyperedgesVerticesUpdated :=
          delta.hyperedgesVerticesUpdated ++ [(index, oldVertices, newVertices)] }
  | .hyperedgeReversed _ index _ _ =>
      { delta with hyperedgesReversed := delta.hyperedgesReversed ++ [index] }
  | .hyperedgesJoined _ targetIndex sourceIndices _ =>
      { delta with hyperedgesJoined := delta.hyperedgesJoined ++ [(targetIndex, sourceIndices)] }
  | .verticesContracted _ hyperedgeIndex contractedVertices targetVertex _ _ =>
      { delta with
        contractions :=
          delta.contractions ++ [(hyperedgeIndex, contractedVertices, targetVertex)] }
  | .hyperedgesCleared timestamp count =>
      { delta with hyperedgesCleared := delta.hyperedgesCleared ++ [(timestamp, count)] }
  | .graphCleared timestamp vertexCount hyperedgeCount =>
      { delta with
        graphCleared := delta.graphCleared ++ [(timestamp, vertexCount, hyperedgeCount)] }
  | .snapshotMarker .. => delta

/-- One delta after the other, list by list. -/
def append (delta delta' : GraphDelta V HE) : GraphDelta V HE where
  verticesAdded := delta.verticesAdded ++ delta'.verticesAdded
  verticesRemoved := delta.verticesRemoved ++ delta'.verticesRemoved
  verticesUpdated := delta.verticesUpdated ++ delta'.verticesUpdated
  hyperedgesAdded := delta.hyperedgesAdded ++ delta'.hyperedgesAdded
  hyperedgesRemoved := delta.hyperedgesRemoved ++ delta'.hyperedgesRemoved
  hyperedgesWeightUpdated := delta.hyperedgesWeightUpdated ++ delta'.hyperedgesWeightUpdated
  hyperedgesVerticesUpdated :=
    delta.hyperedgesVerticesUpdated ++ delta'.hyperedgesVerticesUpdated
  hyperedgesReversed := delta.hyperedgesReversed ++ delta'.hyperedgesReversed
  hyperedgesJoined := delta.hyperedgesJoined ++ delta'.hyperedgesJoined
  contractions := delta.contractions ++ delta'.contractions
  hyperedgesCleared := delta.hyperedgesCleared ++ delta'.hyperedgesCleared
  graphCleared := delta.graphCleared ++ delta'.graphCleared

/-- The changes a list of events holds, kind by kind and in the order of the events. -/
def changes (events : List (TemporalEvent V HE)) : GraphDelta V HE where
  verticesAdded := events.filterMap fun
    | .vertexAdded _ index weight => some (index, weight)
    | _ => none
  verticesRemoved := events.filterMap fun
    | .vertexRemoved _ index weight => some (index, weight)
    | _ => none
  verticesUpdated := events.filterMap fun
    | .vertexWeightUpdated _ index oldWeight newWeight => some (index, oldWeight, newWeight)
    | _ => none
  hyperedgesAdded := events.filterMap fun
    | .hyperedgeAdded _ index vertices weight => some (index, vertices, weight)
    | _ => none
  hyperedgesRemoved := events.filterMap fun
    | .hyperedgeRemoved _ index vertices weight => some (index, vertices, weight)
    | _ => none
  hyperedgesWeightUpdated := events.filterMap fun
    | .hyperedgeWeightUpdated _ index oldWeight newWeight => some (index, oldWeight, newWeight)
    | _ => none
  hyperedgesVerticesUpdated := events.filterMap fun
    | .hyperedgeVerticesUpdated _ index oldVertices newVertices =>
        some (index, oldVertices, newVertices)
    | _ => none
  hyperedgesReversed := events.filterMap fun
    | .hyperedgeReversed _ index _ _ => some index
    | _ => none
  hyperedgesJoined := events.filterMap fun
    | .hyperedgesJoined _ targetIndex sourceIndices _ => some (targetIndex, sourceIndices)
    | _ => none
  contractions := events.filterMap fun
    | .verticesContracted _ hyperedgeIndex contractedVertices targetVertex _ _ =>
        some (hyperedgeIndex, contractedVertices, targetVertex)
    | _ => none
  hyperedgesCleared := events.filterMap fun
    | .hyperedgesCleared timestamp count => some (timestamp, count)
    | _ => none
  graphCleared := events.filterMap fun
    | .graphCleared timestamp vertexCount hyperedgeCount =>
        some (timestamp, vertexCount, hyperedgeCount)
    | _ => none

@[simp] theorem append_default (delta : GraphDelta V HE) : delta.append default = delta := by
  simp [append, default]

theorem append_assoc (d₁ d₂ d₃ : GraphDelta V HE) :
    (d₁.append d₂).append d₃ = d₁.append (d₂.append d₃) := by
  simp [append]

@[simp] theorem changes_nil : changes ([] : List (TemporalEvent V HE)) = default := rfl

theorem changes_append (es fs : List (TemporalEvent V HE)) :
    changes (es ++ fs) = (changes es).append (changes fs) := by
  simp [changes, append]

theorem changes_singleton (event : TemporalEvent V HE) :
    changes [event] = default.record event := by
  cases event <;> rfl

/-- Recording an event appends its change. -/
theorem record_eq (delta : GraphDelta V HE) (event : TemporalEvent V HE) :
    delta.record event = delta.append (changes [event]) := by
  rw [changes_singleton]
  cases event <;> simp only [record, append, default, List.append_nil, List.nil_append]

/-- Recording events one by one appends their changes. -/
theorem foldl_record (delta : GraphDelta V HE) (events : List (TemporalEvent V HE)) :
    events.foldl record delta = delta.append (changes events) := by
  induction events generalizing delta with
  | nil => rw [changes_nil, append_default, List.foldl_nil]
  | cons e es ih =>
      rw [List.foldl_cons, ih, record_eq, append_assoc, ← changes_append, List.singleton_append]

theorem default_append (delta : GraphDelta V HE) : default.append delta = delta := rfl

theorem changeCount_append (delta delta' : GraphDelta V HE) :
    (delta.append delta').changeCount = delta.changeCount + delta'.changeCount := by
  simp only [changeCount, append, List.length_append]
  omega

/-- A marker changes nothing. -/
theorem changes_singleton_of_marker {event : TemporalEvent V HE}
    (h : event.isMutation = false) : changes [event] = default := by
  cases event with
  | snapshotMarker => rfl
  | _ => exact Bool.noConfusion h

theorem changeCount_changes_singleton {event : TemporalEvent V HE}
    (h : event.isMutation = true) : (changes [event]).changeCount = 1 := by
  cases event with
  | snapshotMarker => exact Bool.noConfusion h
  | _ => rfl

/-- A delta counts the mutations. -/
theorem changeCount_changes (events : List (TemporalEvent V HE)) :
    (changes events).changeCount = (events.filter TemporalEvent.isMutation).length := by
  induction events with
  | nil => rfl
  | cons e es ih =>
      rw [← List.singleton_append, changes_append, changeCount_append, ih, List.filter_append,
        List.length_append, List.filter_singleton]
      cases hm : e.isMutation with
      | false => rw [changes_singleton_of_marker hm]; rfl
      | true => rw [changeCount_changes_singleton hm]; rfl

/-- Markers may be left out. -/
theorem changes_filter_isMutation (events : List (TemporalEvent V HE)) :
    changes (events.filter TemporalEvent.isMutation) = changes events := by
  induction events with
  | nil => rfl
  | cons e es ih =>
      rw [← List.singleton_append, List.filter_append, changes_append, changes_append, ih,
        List.filter_singleton]
      cases hm : e.isMutation with
      | false => rw [changes_singleton_of_marker hm]; rfl
      | true => rfl

/-- A longer selection of events holds the same changes exactly when what it adds is markers. -/
theorem changes_filter_eq_iff {p q : TemporalEvent V HE → Bool}
    (hpq : ∀ e, p e = true → q e = true) (events : List (TemporalEvent V HE)) :
    changes (events.filter p) = changes (events.filter q) ↔
      ∀ e ∈ events, e.isMutation = true → q e = true → p e = true := by
  constructor
  · intro heq e he hm hq
    -- the mutations of one selection are among those of the other, and as many
    have hlen := congrArg changeCount heq
    rw [changeCount_changes, changeCount_changes, List.filter_filter, List.filter_filter] at hlen
    have hsub : (events.filter fun e ↦ e.isMutation && p e).Sublist
        (events.filter fun e ↦ e.isMutation && q e) := by
      refine List.monotone_filter_right events fun e h ↦ ?_
      rw [Bool.and_eq_true] at h ⊢
      exact ⟨h.1, hpq e h.2⟩
    have hmem : e ∈ events.filter fun e ↦ e.isMutation && q e :=
      List.mem_filter.mpr ⟨he, Bool.and_eq_true _ _ ▸ ⟨hm, hq⟩⟩
    rw [← hsub.eq_of_length hlen, List.mem_filter, Bool.and_eq_true] at hmem
    exact hmem.2.2
  · intro h
    rw [← changes_filter_isMutation, ← changes_filter_isMutation (events.filter q),
      List.filter_filter, List.filter_filter]
    refine congrArg changes (List.filter_congr fun e he ↦ ?_)
    cases hm : e.isMutation with
    | false => rfl
    | true => exact Bool.eq_iff_iff.mpr ⟨hpq e, h e he hm⟩

end GraphDelta

/-! ## The delta of a stretch of the log -/

/-- The changes between two timestamps; `none` is a panic of the range lookup. -/
def delta (checksEmpty : Bool) (log : EventLog V HE) (since upto : Timestamp) :
    Option (GraphDelta V HE) :=
  (log.eventsInRange checksEmpty (.between since upto)).map fun events ↦
    events.foldl (fun delta event ↦ if event.timestamp = since then delta else delta.record event)
      .default

section Sorted

variable {log : EventLog V HE} (hsorted : log.events.Pairwise fun a b ↦ a.timestamp ≤ b.timestamp)

include hsorted

/-- A delta reports the changes strictly between its ends. -/
theorem delta_eq (checksEmpty : Bool) {since upto : Timestamp} (h : since ≤ upto) :
    delta checksEmpty log since upto = some (GraphDelta.changes
      (log.events.filter fun e ↦ since < e.timestamp ∧ e.timestamp < upto)) := by
  have hup : (TimeRange.between since upto).Upright := by
    intro s hs e he
    rw [← Option.some.inj hs, ← Option.some.inj he]
    exact h
  rw [delta, EventLog.eventsInRange_eq (Or.inl hup), chronicle.of_pairwise _ (hsorted.filter _),
    Option.map_some]
  have hskip : ∀ (d : GraphDelta V HE) (es : List (TemporalEvent V HE)),
      es.foldl (fun d e ↦ if e.timestamp = since then d else d.record e) d =
        (es.filter fun e ↦ e.timestamp ≠ since).foldl GraphDelta.record d := by
    intro d es
    rw [List.foldl_filter]
    simp only [ne_eq, decide_not, Bool.not_eq_true', decide_eq_false_iff_not, ite_not]
  rw [hskip, GraphDelta.foldl_record, GraphDelta.default_append, List.filter_filter]
  refine congrArg (some ∘ GraphDelta.changes) (List.filter_congr fun e _ ↦ ?_)
  rw [Bool.eq_iff_iff, Bool.and_eq_true, decide_eq_true_iff, decide_eq_true_iff,
    decide_eq_true_iff]
  constructor
  · rintro ⟨hne, hle, hlt⟩
    exact ⟨lt_of_le_of_ne hle (Ne.symm hne), hlt⟩
  · rintro ⟨hlt, hlt'⟩
    exact ⟨hlt.ne', hlt.le, hlt'⟩

/-- A delta reports the changes after `since` up to and including `upto` exactly when nothing but
markers happened at `upto`, or the two are the same. -/
theorem delta_exact_iff (checksEmpty : Bool) {since upto : Timestamp} (h : since ≤ upto) :
    delta checksEmpty log since upto = some (GraphDelta.changes
        (log.events.filter fun e ↦ since < e.timestamp ∧ e.timestamp ≤ upto)) ↔
      since = upto ∨ ∀ e ∈ log.events, e.isMutation = true → e.timestamp ≠ upto := by
  rw [delta_eq hsorted checksEmpty h, Option.some_inj, GraphDelta.changes_filter_eq_iff]
  · simp only [decide_eq_true_iff]
    constructor
    · intro hall
      rcases h.eq_or_lt with heq | hlt
      · exact Or.inl heq
      · refine Or.inr fun e he hm hupto ↦ ?_
        exact (hall e he hm ⟨hupto ▸ hlt, hupto.le⟩).2.ne hupto
    · rintro (rfl | hnone) e he hm ⟨hlt, hle⟩
      · exact absurd hle (not_le.mpr hlt)
      · exact ⟨hlt, hle.lt_of_ne (hnone e he hm)⟩
  · intro e he
    rw [decide_eq_true_iff] at he ⊢
    exact ⟨he.1, he.2.le⟩

/-- Two adjacent deltas put together are the delta of both stretches exactly when nothing but
markers happened where they meet, or one of the stretches is empty. -/
theorem delta_append_iff (checksEmpty : Bool) {a b c : Timestamp} (hab : a ≤ b) (hbc : b ≤ c) :
    Option.map₂ GraphDelta.append (delta checksEmpty log a b) (delta checksEmpty log b c) =
        delta checksEmpty log a c ↔
      a = b ∨ b = c ∨ ∀ e ∈ log.events, e.isMutation = true → e.timestamp ≠ b := by
  rw [delta_eq hsorted checksEmpty hab, delta_eq hsorted checksEmpty hbc,
    delta_eq hsorted checksEmpty (hab.trans hbc), Option.map₂_some_some, Option.some_inj,
    ← GraphDelta.changes_append, chronicle.filter_append_filter hsorted,
    GraphDelta.changes_filter_eq_iff]
  · simp only [Bool.or_eq_true, decide_eq_true_iff]
    constructor
    · intro hall
      rcases hab.eq_or_lt with heq | hlt
      · exact Or.inl heq
      rcases hbc.eq_or_lt with heq' | hlt'
      · exact Or.inr (Or.inl heq')
      refine Or.inr (Or.inr fun e he hm hb ↦ ?_)
      rcases hall e he hm ⟨hb ▸ hlt, hb ▸ hlt'⟩ with hbefore | hafter
      · exact hbefore.2.ne hb
      · exact hafter.1.ne' hb
    · rintro (rfl | rfl | hnone) e he hm hin
      · exact Or.inr hin
      · exact Or.inl hin
      · rcases lt_or_gt_of_ne (hnone e he hm) with hlt | hgt
        · exact Or.inl ⟨hin.1, hlt⟩
        · exact Or.inr ⟨hgt, hin.2⟩
  · intro e he
    rw [Bool.or_eq_true, decide_eq_true_iff, decide_eq_true_iff] at he
    rw [decide_eq_true_iff]
    rcases he with hbefore | hafter
    · exact ⟨hbefore.1, hbefore.2.trans_le hbc⟩
    · exact ⟨hab.trans_lt hafter.1, hafter.2⟩
  · intro e f he hf
    rw [decide_eq_true_iff] at he hf
    exact he.2.trans hf.1

/-- **Deltas.**  Over a log whose timestamps do not decrease, a delta is exact when nothing but
markers happened at its end, and adjacent deltas compose when nothing but markers happened where
they meet; and only then, empty stretches apart. -/
theorem deltas_exact_and_compose_iff (checksEmpty : Bool) :
    (∀ since upto, since ≤ upto →
      (delta checksEmpty log since upto = some (GraphDelta.changes
          (log.events.filter fun e ↦ since < e.timestamp ∧ e.timestamp ≤ upto)) ↔
        since = upto ∨ ∀ e ∈ log.events, e.isMutation = true → e.timestamp ≠ upto)) ∧
    ∀ a b c, a ≤ b → b ≤ c →
      (Option.map₂ GraphDelta.append (delta checksEmpty log a b) (delta checksEmpty log b c) =
          delta checksEmpty log a c ↔
        a = b ∨ b = c ∨ ∀ e ∈ log.events, e.isMutation = true → e.timestamp ≠ b) :=
  ⟨fun _ _ h ↦ delta_exact_iff hsorted checksEmpty h,
    fun _ _ _ hab hbc ↦ delta_append_iff hsorted checksEmpty hab hbc⟩

end Sorted

/-- A delta up to 2 misses the vertex added at 2, and so does the one that starts there. -/
theorem deltas_lose_their_end :
    (¬ ∀ log : EventLog Unit Unit, (log.events.Pairwise fun a b ↦ a.timestamp ≤ b.timestamp) →
      ∀ since upto, since ≤ upto → delta true log since upto = some (GraphDelta.changes
        (log.events.filter fun e ↦ since < e.timestamp ∧ e.timestamp ≤ upto))) ∧
    ¬ ∀ log : EventLog Unit Unit, (log.events.Pairwise fun a b ↦ a.timestamp ≤ b.timestamp) →
      ∀ a b c, a ≤ b → b ≤ c →
        Option.map₂ GraphDelta.append (delta true log a b) (delta true log b c) =
          delta true log a c := by
  have hsorted :
      (EventLog.ofEvents [(.vertexAdded 2 0 () : TemporalEvent Unit Unit)]).events.Pairwise
        fun a b ↦ a.timestamp ≤ b.timestamp := List.pairwise_singleton _ _
  have hadded :
      ¬ ∀ e ∈ (EventLog.ofEvents [(.vertexAdded 2 0 () : TemporalEvent Unit Unit)]).events,
        e.isMutation = true → e.timestamp ≠ 2 := by decide
  constructor
  · intro hall
    rcases (delta_exact_iff hsorted true (by decide)).mp (hall _ hsorted 1 2 (by decide))
      with heq | hnone
    · exact absurd heq (by decide)
    · exact hadded hnone
  · intro hall
    rcases (delta_append_iff hsorted true (by decide) (by decide)).mp
      (hall _ hsorted 1 2 3 (by decide) (by decide)) with heq | heq | hnone
    · exact absurd heq (by decide)
    · exact absurd heq (by decide)
    · exact hadded hnone

/-- Deltas that meet between two events compose. -/
theorem deltas_compose_between_events :
    Option.map₂ GraphDelta.append
        (delta true (.ofEvents [(.vertexAdded 1 0 () : TemporalEvent Unit Unit),
          .vertexAdded 3 1 ()]) 0 2)
        (delta true (.ofEvents [.vertexAdded 1 0 (), .vertexAdded 3 1 ()]) 2 4) =
      delta true (.ofEvents [.vertexAdded 1 0 (), .vertexAdded 3 1 ()]) 0 4 :=
  ((deltas_exact_and_compose_iff (by decide) true).2 0 2 4 (by decide) (by decide)).mpr
    (Or.inr (Or.inr (by decide)))

end Koalisi.Topology
