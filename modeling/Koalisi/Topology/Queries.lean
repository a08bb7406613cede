import Mathlib.Data.Finset.Card
import Koalisi.Topology.EventLog

/-!
# Point-in-time queries

Each query folds the events of one object, oldest first, and stops at the first
event later than the instant asked for.  The folds are `Timeline.foldUntil`, one
step function per query; the counts filter the objects ever touched.

A step function sees an event as often as the event mentions the object, so the
facts below rest on every step being idempotent.  With that, a query over a log
that splits at `t` is an object fold over the first part of the log alone.
-/

namespace Koalisi.Topology

open Koalisi.Lib.Timeline

variable {V HE : Type}

/-! ## Step functions: one loop body per query -/

/-- Whether a vertex exists, across one event of its history. -/
def vertexExistsStep (existed : Bool) : TemporalEvent V HE → Bool
  | .vertexAdded .. => true
  | .vertexRemoved .. => false
  | _ => existed

/-- Whether a hyperedge exists, across one event of its history. -/
def hyperedgeExistsStep (hyperedge : HyperedgeIndex) (existed : Bool) :
    TemporalEvent V HE → Bool
  | .hyperedgeAdded .. => true
  | .hyperedgeRemoved .. => false
  -- Only the source role of a join removes the hyperedge.
  | .hyperedgesJoined _ _ sourceIndices _ =>
      if hyperedge ∈ sourceIndices then false else existed
  | _ => existed

/-- The weight of a vertex, across one event of its history. -/
def vertexWeightStep (weight : Option V) : TemporalEvent V HE → Option V
  | .vertexAdded _ _ w => some w
  | .vertexRemoved .. => none
  | .vertexWeightUpdated _ _ _ newWeight => some newWeight
  | _ => weight

/-- The weight of a hyperedge, across one event of its history. -/
def hyperedgeWeightStep (hyperedge : HyperedgeIndex) (weight : Option HE) :
    TemporalEvent V HE → Option HE
  | .hyperedgeAdded _ _ _ w => some w
  | .hyperedgeRemoved .. => none
  | .hyperedgeWeightUpdated _ _ _ newWeight => some newWeight
  | .hyperedgesJoined _ _ sourceIndices _ =>
      if hyperedge ∈ sourceIndices then none else weight
  | _ => weight

/-- The members of a hyperedge, across one event of its history. -/
def hyperedgeVerticesStep (hyperedge : HyperedgeIndex) (vertices : Option (List VertexIndex)) :
    TemporalEvent V HE → Option (List VertexIndex)
  | .hyperedgeAdded _ _ v _ => some v
  | .hyperedgeRemoved .. => none
  | .hyperedgeVerticesUpdated _ _ _ newVertices => some newVertices
  | .hyperedgeReversed _ _ _ newVertices => some newVertices
  -- The join event is indexed under the target and each source.
  | .hyperedgesJoined _ targetIndex sourceIndices newVertices =>
      if targetIndex = hyperedge then some newVertices
      else if hyperedge ∈ sourceIndices then none else vertices
  | .verticesContracted _ _ _ _ _ newVertices => some newVertices
  | _ => vertices

theorem vertexExistsStep_idem (a : Bool) (e : TemporalEvent V HE) :
    vertexExistsStep (vertexExistsStep a e) e = vertexExistsStep a e := by
  cases e <;> rfl

theorem hyperedgeExistsStep_idem (h : HyperedgeIndex) (a : Bool) (e : TemporalEvent V HE) :
    hyperedgeExistsStep h (hyperedgeExistsStep h a e) e = hyperedgeExistsStep h a e := by
  cases e with
  | hyperedgesJoined _ _ sources _ => simp only [hyperedgeExistsStep]; split <;> rfl
  | _ => rfl

theorem vertexWeightStep_idem (a : Option V) (e : TemporalEvent V HE) :
    vertexWeightStep (vertexWeightStep a e) e = vertexWeightStep a e := by
  cases e <;> rfl

theorem hyperedgeWeightStep_idem (h : HyperedgeIndex) (a : Option HE)
    (e : TemporalEvent V HE) :
    hyperedgeWeightStep h (hyperedgeWeightStep h a e) e = hyperedgeWeightStep h a e := by
  cases e with
  | hyperedgesJoined _ _ sources _ => simp only [hyperedgeWeightStep]; split <;> rfl
  | _ => rfl

theorem hyperedgeVerticesStep_idem (h : HyperedgeIndex) (a : Option (List VertexIndex))
    (e : TemporalEvent V HE) :
    hyperedgeVerticesStep h (hyperedgeVerticesStep h a e) e = hyperedgeVerticesStep h a e := by
  cases e with
  | hyperedgesJoined _ target sources _ =>
      simp only [hyperedgeVerticesStep]
      split
      · rfl
      · split <;> rfl
  | _ => rfl

/-! ## The queries -/

/-- Whether a vertex existed at a given timestamp. -/
def vertexExistsAt (events : EventLog V HE) (vertex : VertexIndex) (timestamp : Timestamp) :
    Bool :=
  foldUntil TemporalEvent.timestamp timestamp vertexExistsStep false (events.vertexEvents vertex)

/-- Whether a hyperedge existed at a given timestamp. -/
def hyperedgeExistsAt (events : EventLog V HE) (hyperedge : HyperedgeIndex)
    (timestamp : Timestamp) : Bool :=
  foldUntil TemporalEvent.timestamp timestamp (hyperedgeExistsStep hyperedge) false
    (events.hyperedgeEvents hyperedge)

/-- The weight of a vertex at a given timestamp. -/
def vertexWeightAt (events : EventLog V HE) (vertex : VertexIndex) (timestamp : Timestamp) :
    Option V :=
  foldUntil TemporalEvent.timestamp timestamp vertexWeightStep none (events.vertexEvents vertex)

/-- The weight of a hyperedge at a given timestamp. -/
def hyperedgeWeightAt (events : EventLog V HE) (hyperedge : HyperedgeIndex)
    (timestamp : Timestamp) : Option HE :=
  foldUntil TemporalEvent.timestamp timestamp (hyperedgeWeightStep hyperedge) none
    (events.hyperedgeEvents hyperedge)

/-- The vertices of a hyperedge at a given timestamp. -/
def hyperedgeVerticesAt (events : EventLog V HE) (hyperedge : HyperedgeIndex)
    (timestamp : Timestamp) : Option (List VertexIndex) :=
  foldUntil TemporalEvent.timestamp timestamp (hyperedgeVerticesStep hyperedge) none
    (events.hyperedgeEvents hyperedge)

/-- The number of vertices at a given timestamp. -/
def countVerticesAt (events : EventLog V HE) (timestamp : Timestamp) : Nat :=
  (events.vertexIndices.filter fun v ↦ vertexExistsAt events v timestamp).length

/-- The number of hyperedges at a given timestamp. -/
def countHyperedgesAt (events : EventLog V HE) (timestamp : Timestamp) : Nat :=
  (events.hyperedgeIndices.filter fun h ↦ hyperedgeExistsAt events h timestamp).length

/-! ## Queries over a split log

The object folds: what the queries compute from a list of events, with no index
and no cut. -/

/-- Whether a list of events leaves a vertex alive. -/
def vertexAlive (es : List (TemporalEvent V HE)) (v : VertexIndex) : Bool :=
  objectFold TemporalEvent.vertexKeys v vertexExistsStep false es

/-- Whether a list of events leaves a hyperedge alive. -/
def hyperedgeAlive (es : List (TemporalEvent V HE)) (h : HyperedgeIndex) : Bool :=
  objectFold TemporalEvent.hyperedgeKeys h (hyperedgeExistsStep h) false es

/-- The weight a list of events leaves a vertex with. -/
def vertexWeight (es : List (TemporalEvent V HE)) (v : VertexIndex) : Option V :=
  objectFold TemporalEvent.vertexKeys v vertexWeightStep none es

/-- The weight a list of events leaves a hyperedge with. -/
def hyperedgeWeight (es : List (TemporalEvent V HE)) (h : HyperedgeIndex) : Option HE :=
  objectFold TemporalEvent.hyperedgeKeys h (hyperedgeWeightStep h) none es

/-- The members a list of events leaves a hyperedge with. -/
def hyperedgeVertices (es : List (TemporalEvent V HE)) (h : HyperedgeIndex) :
    Option (List VertexIndex) :=
  objectFold TemporalEvent.hyperedgeKeys h (hyperedgeVerticesStep h) none es

/-- The log consists of `es`, all at or before `t`, and later events. -/
structure SplitsAt (log : EventLog V HE) (t : Timestamp) (es : List (TemporalEvent V HE)) :
    Prop where
  /-- `es` is the first part of the log. -/
  split : ∃ fs, log.events = es ++ fs ∧ ∀ e ∈ fs, t < e.timestamp
  /-- No event of `es` is later than `t`. -/
  early : ∀ e ∈ es, e.timestamp ≤ t

section Split

variable {log : EventLog V HE} {t : Timestamp} {es : List (TemporalEvent V HE)}

/-- The cut fold of a history over a split log is the object fold of its first part. -/
theorem SplitsAt.foldUntil_eq {K : Type} {α : Type*} [DecidableEq K] (h : SplitsAt log t es)
    (keys : TemporalEvent V HE → List K) (k : K) {f : α → TemporalEvent V HE → α}
    (hf : ∀ a e, f (f a e) e = f a e) (a : α) :
    foldUntil TemporalEvent.timestamp t f a (mentions keys k log.events) =
      objectFold keys k f a es := by
  obtain ⟨fs, hfs, hlate⟩ := h.split
  rw [hfs]
  exact foldUntil_mentions keys _ t k hf a h.early hlate

theorem SplitsAt.vertexExistsAt_eq (h : SplitsAt log t es) (v : VertexIndex) :
    vertexExistsAt log v t = vertexAlive es v := by
  rw [vertexExistsAt, EventLog.vertexEvents_eq]
  exact h.foldUntil_eq _ v vertexExistsStep_idem false

theorem SplitsAt.hyperedgeExistsAt_eq (h : SplitsAt log t es) (he : HyperedgeIndex) :
    hyperedgeExistsAt log he t = hyperedgeAlive es he := by
  rw [hyperedgeExistsAt, EventLog.hyperedgeEvents_eq]
  exact h.foldUntil_eq _ he (hyperedgeExistsStep_idem he) false

theorem SplitsAt.vertexWeightAt_eq (h : SplitsAt log t es) (v : VertexIndex) :
    vertexWeightAt log v t = vertexWeight es v := by
  rw [vertexWeightAt, EventLog.vertexEvents_eq]
  exact h.foldUntil_eq _ v vertexWeightStep_idem none

theorem SplitsAt.hyperedgeWeightAt_eq (h : SplitsAt log t es) (he : HyperedgeIndex) :
    hyperedgeWeightAt log he t = hyperedgeWeight es he := by
  rw [hyperedgeWeightAt, EventLog.hyperedgeEvents_eq]
  exact h.foldUntil_eq _ he (hyperedgeWeightStep_idem he) none

theorem SplitsAt.hyperedgeVerticesAt_eq (h : SplitsAt log t es) (he : HyperedgeIndex) :
    hyperedgeVerticesAt log he t = hyperedgeVertices es he := by
  rw [hyperedgeVerticesAt, EventLog.hyperedgeEvents_eq]
  exact h.foldUntil_eq _ he (hyperedgeVerticesStep_idem he) none

/-- Counting the elements of a duplicate-free list that covers a property counts
the property's extension. -/
theorem length_filter_eq_card {l : List Nat} (hl : l.Nodup) {p : Nat → Bool} {s : Finset Nat}
    (hs : ∀ x, x ∈ s ↔ p x = true) (hcover : ∀ x, p x = true → x ∈ l) :
    (l.filter p).length = s.card := by
  rw [← List.toFinset_card_of_nodup (hl.filter p)]
  congr 1
  ext x
  rw [List.mem_toFinset, List.mem_filter, hs x]
  exact ⟨And.right, fun h ↦ ⟨hcover x h, h⟩⟩

/-- The vertex count at a split is the number of vertices its first part leaves alive. -/
theorem SplitsAt.countVerticesAt_eq (h : SplitsAt log t es) {s : Finset VertexIndex}
    (hs : ∀ v, v ∈ s ↔ vertexAlive es v = true) : countVerticesAt log t = s.card := by
  simp only [countVerticesAt, h.vertexExistsAt_eq]
  refine length_filter_eq_card log.nodup_vertexIndices hs fun v hv ↦ ?_
  obtain ⟨fs, hfs, _⟩ := h.split
  rw [EventLog.mem_vertexIndices, hfs]
  by_contra hno
  have hdead : vertexAlive es v = false :=
    objectFold_of_unmentioned _ v _ _ fun e he hk ↦ hno ⟨e, List.mem_append_left fs he, hk⟩
  rw [hdead] at hv
  cases hv

/-- The hyperedge count at a split is the number of hyperedges its first part leaves alive. -/
theorem SplitsAt.countHyperedgesAt_eq (h : SplitsAt log t es) {s : Finset HyperedgeIndex}
    (hs : ∀ he, he ∈ s ↔ hyperedgeAlive es he = true) : countHyperedgesAt log t = s.card := by
  simp only [countHyperedgesAt, h.hyperedgeExistsAt_eq]
  refine length_filter_eq_card log.nodup_hyperedgeIndices hs fun he hhe ↦ ?_
  obtain ⟨fs, hfs, _⟩ := h.split
  rw [EventLog.mem_hyperedgeIndices, hfs]
  by_contra hno
  have hdead : hyperedgeAlive es he = false :=
    objectFold_of_unmentioned _ he _ _ fun e hm hk ↦ hno ⟨e, List.mem_append_left fs hm, hk⟩
  rw [hdead] at hhe
  cases hhe

end Split

end Koalisi.Topology
