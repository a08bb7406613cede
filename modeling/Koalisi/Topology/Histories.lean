import Koalisi.Topology.Queries

/-!
# What a history lists, and what later events leave of it

A history is read off the index of its object.  The index is filled by several
pushes per event, from lists that may repeat an object and may name the object the
event is about, so a history lists an event once per *mention*.  It is the list of
the events that affect the object exactly when no event mentions it twice.

A query at an instant reads the histories up to it, so events stamped later change
none of its answers.  That holds for any log, sorted or not: the loops break at the
first later event, and what is appended comes after whatever made them break.
-/

namespace Koalisi.Topology

open Koalisi.Lib.Timeline

variable {V HE : Type}

namespace TemporalEvent

/-! ## The objects an event affects -/

/-- The vertices a contraction contracts; no other event has any. -/
def contractedVertices : TemporalEvent V HE → List VertexIndex
  | .verticesContracted _ _ contractedVertices _ _ _ => contractedVertices
  | _ => []

/-- The source hyperedges of a join; no other event has any. -/
def sourceIndices : TemporalEvent V HE → List HyperedgeIndex
  | .hyperedgesJoined _ _ sourceIndices _ => sourceIndices
  | _ => []

/-- The event is about the vertex, or contracts it. -/
def AffectsVertex (event : TemporalEvent V HE) (v : VertexIndex) : Prop :=
  event.vertexIndex = some v ∨ v ∈ event.contractedVertices

/-- The event is about the hyperedge, or joins it into another. -/
def AffectsHyperedge (event : TemporalEvent V HE) (h : HyperedgeIndex) : Prop :=
  event.hyperedgeIndex = some h ∨ h ∈ event.sourceIndices

instance (event : TemporalEvent V HE) (v : VertexIndex) : Decidable (event.AffectsVertex v) :=
  inferInstanceAs (Decidable (_ ∨ _))

instance (event : TemporalEvent V HE) (h : HyperedgeIndex) :
    Decidable (event.AffectsHyperedge h) :=
  inferInstanceAs (Decidable (_ ∨ _))

/-- The vertex is not both the event's own and contracted, nor contracted twice. -/
def MentionsVertexOnce (event : TemporalEvent V HE) (v : VertexIndex) : Prop :=
  ¬ (event.vertexIndex = some v ∧ v ∈ event.contractedVertices) ∧
    event.contractedVertices.count v ≤ 1

/-- The hyperedge is not both the event's own and a source, nor a source twice. -/
def MentionsHyperedgeOnce (event : TemporalEvent V HE) (h : HyperedgeIndex) : Prop :=
  ¬ (event.hyperedgeIndex = some h ∧ h ∈ event.sourceIndices) ∧
    event.sourceIndices.count h ≤ 1

theorem vertexKeys_eq (event : TemporalEvent V HE) :
    event.vertexKeys = event.vertexIndex.toList ++ event.contractedVertices := by
  cases event <;> rfl

theorem hyperedgeKeys_eq (event : TemporalEvent V HE) :
    event.hyperedgeKeys = event.hyperedgeIndex.toList ++ event.sourceIndices := by
  cases event <;> rfl

theorem mem_vertexKeys {event : TemporalEvent V HE} {v : VertexIndex} :
    v ∈ event.vertexKeys ↔ event.AffectsVertex v := by
  rw [vertexKeys_eq, List.mem_append, Option.mem_toList]
  rfl

theorem mem_hyperedgeKeys {event : TemporalEvent V HE} {h : HyperedgeIndex} :
    h ∈ event.hyperedgeKeys ↔ event.AffectsHyperedge h := by
  rw [hyperedgeKeys_eq, List.mem_append, Option.mem_toList]
  rfl

/-- An own object and a list name a key once when they do not share it and the list does not
repeat it. -/
theorem count_toList_append_le_one (own : Option Nat) (others : List Nat) (k : Nat) :
    (own.toList ++ others).count k ≤ 1 ↔
      ¬ (own = some k ∧ k ∈ others) ∧ others.count k ≤ 1 := by
  rw [List.count_append]
  by_cases hown : own = some k
  · have hpos : k ∈ others ↔ 0 < others.count k := List.count_pos_iff.symm
    rw [hown, Option.toList_some, List.count_singleton_self, and_iff_right rfl, hpos]
    omega
  · have hcount : own.toList.count k = 0 :=
      List.count_eq_zero.mpr fun hmem ↦ hown (Option.mem_toList.mp hmem)
    rw [hcount, Nat.zero_add]
    exact (and_iff_right fun h ↦ hown h.1).symm

theorem count_vertexKeys_le_one {event : TemporalEvent V HE} {v : VertexIndex} :
    event.vertexKeys.count v ≤ 1 ↔ event.MentionsVertexOnce v := by
  rw [vertexKeys_eq, count_toList_append_le_one]
  rfl

theorem count_hyperedgeKeys_le_one {event : TemporalEvent V HE} {h : HyperedgeIndex} :
    event.hyperedgeKeys.count h ≤ 1 ↔ event.MentionsHyperedgeOnce h := by
  rw [hyperedgeKeys_eq, count_toList_append_le_one]
  rfl

end TemporalEvent

/-! ## What a history lists -/

/-- A vertex's history is the events that affect it exactly when none mentions it twice. -/
theorem vertexEvents_eq_filter_iff (events : List (TemporalEvent V HE)) (v : VertexIndex) :
    (EventLog.ofEvents events).vertexEvents v = events.filter (fun e ↦ e.AffectsVertex v) ↔
      ∀ e ∈ events, e.MentionsVertexOnce v := by
  simp only [EventLog.vertexEvents_eq, EventLog.events_ofEvents, ← TemporalEvent.mem_vertexKeys,
    ← TemporalEvent.count_vertexKeys_le_one]
  exact mentions_eq_filter_iff TemporalEvent.vertexKeys v events

/-- A hyperedge's history is the events that affect it exactly when none mentions it twice. -/
theorem hyperedgeEvents_eq_filter_iff (events : List (TemporalEvent V HE))
    (h : HyperedgeIndex) :
    (EventLog.ofEvents events).hyperedgeEvents h = events.filter (fun e ↦ e.AffectsHyperedge h) ↔
      ∀ e ∈ events, e.MentionsHyperedgeOnce h := by
  simp only [EventLog.hyperedgeEvents_eq, EventLog.events_ofEvents,
    ← TemporalEvent.mem_hyperedgeKeys, ← TemporalEvent.count_hyperedgeKeys_le_one]
  exact mentions_eq_filter_iff TemporalEvent.hyperedgeKeys h events

/-- **Histories.**  Whatever is appended, the history of an object lists the events that affect
it, in append order and each once, exactly when no event mentions the object twice. -/
theorem histories_exact_iff (events : List (TemporalEvent V HE)) :
    (∀ v, (EventLog.ofEvents events).vertexEvents v =
        events.filter (fun e ↦ e.AffectsVertex v) ↔ ∀ e ∈ events, e.MentionsVertexOnce v) ∧
    (∀ h, (EventLog.ofEvents events).hyperedgeEvents h =
        events.filter (fun e ↦ e.AffectsHyperedge h) ↔
      ∀ e ∈ events, e.MentionsHyperedgeOnce h) :=
  ⟨vertexEvents_eq_filter_iff events, hyperedgeEvents_eq_filter_iff events⟩

/-- A contraction of a vertex into itself is listed twice in the history of that vertex. -/
theorem contraction_into_itself_listed_twice :
    ¬ ∀ (events : List (TemporalEvent Unit Unit)) (v : VertexIndex),
      (EventLog.ofEvents events).vertexEvents v =
        events.filter fun e ↦ e.AffectsVertex v := by
  intro hall
  have honce := (vertexEvents_eq_filter_iff _ _).mp
    (hall [.verticesContracted 0 0 [0] 0 [0] [0]] 0) _ List.mem_cons_self
  exact honce.1 ⟨rfl, List.mem_singleton_self 0⟩

/-! ## Later events -/

section Later

variable {log : EventLog V HE} {t : Timestamp} {later : List (TemporalEvent V HE)}

/-- Later events change no cut fold of a history. -/
theorem foldUntil_mentions_append {K : Type} {α : Type*} [DecidableEq K]
    (keys : TemporalEvent V HE → List K) (k : K) (f : α → TemporalEvent V HE → α) (a : α)
    (es : List (TemporalEvent V HE)) (hlate : ∀ e ∈ later, t < e.timestamp) :
    foldUntil TemporalEvent.timestamp t f a (mentions keys k (es ++ later)) =
      foldUntil TemporalEvent.timestamp t f a (mentions keys k es) := by
  rw [mentions_append]
  exact foldUntil_append_late _ t f a _ fun e he ↦ hlate e ((mem_mentions keys).mp he).1

/-- Later events change no fold over the history of a vertex. -/
theorem foldUntil_vertexEvents_later {α : Type*} (f : α → TemporalEvent V HE → α) (a : α)
    (v : VertexIndex) (hlate : ∀ e ∈ later, t < e.timestamp) :
    foldUntil TemporalEvent.timestamp t f a ((later.foldl EventLog.append log).vertexEvents v) =
      foldUntil TemporalEvent.timestamp t f a (log.vertexEvents v) := by
  rw [EventLog.vertexEvents_eq, EventLog.vertexEvents_eq, EventLog.events_foldl_append]
  exact foldUntil_mentions_append _ v f a _ hlate

/-- Later events change no fold over the history of a hyperedge. -/
theorem foldUntil_hyperedgeEvents_later {α : Type*} (f : α → TemporalEvent V HE → α) (a : α)
    (h : HyperedgeIndex) (hlate : ∀ e ∈ later, t < e.timestamp) :
    foldUntil TemporalEvent.timestamp t f a
        ((later.foldl EventLog.append log).hyperedgeEvents h) =
      foldUntil TemporalEvent.timestamp t f a (log.hyperedgeEvents h) := by
  rw [EventLog.hyperedgeEvents_eq, EventLog.hyperedgeEvents_eq, EventLog.events_foldl_append]
  exact foldUntil_mentions_append _ h f a _ hlate

/-- A vertex that exists at some instant is listed. -/
theorem mem_vertexIndices_of_exists {v : VertexIndex} (h : vertexExistsAt log v t = true) :
    v ∈ log.vertexIndices := by
  rw [EventLog.mem_vertexIndices]
  by_contra hno
  have hnil : log.vertexEvents v = [] := by
    rw [EventLog.vertexEvents_eq]
    exact List.eq_nil_iff_forall_not_mem.mpr fun e he ↦ hno ⟨e, (mem_mentions _).mp he⟩
  rw [vertexExistsAt, hnil] at h
  exact Bool.noConfusion h

/-- A hyperedge that exists at some instant is listed. -/
theorem mem_hyperedgeIndices_of_exists {h : HyperedgeIndex}
    (hex : hyperedgeExistsAt log h t = true) : h ∈ log.hyperedgeIndices := by
  rw [EventLog.mem_hyperedgeIndices]
  by_contra hno
  have hnil : log.hyperedgeEvents h = [] := by
    rw [EventLog.hyperedgeEvents_eq]
    exact List.eq_nil_iff_forall_not_mem.mpr fun e he ↦ hno ⟨e, (mem_mentions _).mp he⟩
  rw [hyperedgeExistsAt, hnil] at hex
  exact Bool.noConfusion hex

/-- Two duplicate-free lists that cover a property have it equally often. -/
theorem length_filter_congr {l l' : List Nat} (hl : l.Nodup) (hl' : l'.Nodup) {p : Nat → Bool}
    (h : ∀ x, p x = true → x ∈ l) (h' : ∀ x, p x = true → x ∈ l') :
    (l.filter p).length = (l'.filter p).length := by
  refine ((List.perm_ext_iff_of_nodup (hl.filter p) (hl'.filter p)).mpr fun x ↦ ?_).length_eq
  rw [List.mem_filter, List.mem_filter]
  exact and_congr_left fun hp ↦ iff_of_true (h x hp) (h' x hp)

/-- **The past is immutable.**  Events stamped later than `t`, appended to any log, change the
answer of no query at `t`. -/
theorem past_immutable (log : EventLog V HE) (t : Timestamp)
    (later : List (TemporalEvent V HE)) (hlate : ∀ e ∈ later, t < e.timestamp) :
    (∀ v, vertexExistsAt (later.foldl EventLog.append log) v t = vertexExistsAt log v t) ∧
    (∀ h, hyperedgeExistsAt (later.foldl EventLog.append log) h t =
      hyperedgeExistsAt log h t) ∧
    (∀ v, vertexWeightAt (later.foldl EventLog.append log) v t = vertexWeightAt log v t) ∧
    (∀ h, hyperedgeWeightAt (later.foldl EventLog.append log) h t =
      hyperedgeWeightAt log h t) ∧
    (∀ h, hyperedgeVerticesAt (later.foldl EventLog.append log) h t =
      hyperedgeVerticesAt log h t) ∧
    countVerticesAt (later.foldl EventLog.append log) t = countVerticesAt log t ∧
    countHyperedgesAt (later.foldl EventLog.append log) t = countHyperedgesAt log t := by
  have hvertex : ∀ v,
      vertexExistsAt (later.foldl EventLog.append log) v t = vertexExistsAt log v t :=
    fun v ↦ foldUntil_vertexEvents_later _ false v hlate
  have hhyperedge : ∀ h,
      hyperedgeExistsAt (later.foldl EventLog.append log) h t = hyperedgeExistsAt log h t :=
    fun h ↦ foldUntil_hyperedgeEvents_later _ false h hlate
  refine ⟨hvertex, hhyperedge, fun v ↦ ?_, fun h ↦ ?_, fun h ↦ ?_, ?_, ?_⟩
  · exact foldUntil_vertexEvents_later _ none v hlate
  · exact foldUntil_hyperedgeEvents_later _ none h hlate
  · exact foldUntil_hyperedgeEvents_later _ none h hlate
  · simp only [countVerticesAt, hvertex]
    refine length_filter_congr (EventLog.nodup_vertexIndices _) log.nodup_vertexIndices
      (fun v hv ↦ ?_) fun v hv ↦ mem_vertexIndices_of_exists hv
    exact mem_vertexIndices_of_exists ((hvertex v).trans hv)
  · simp only [countHyperedgesAt, hhyperedge]
    refine length_filter_congr (EventLog.nodup_hyperedgeIndices _) log.nodup_hyperedgeIndices
      (fun h hh ↦ ?_) fun h hh ↦ mem_hyperedgeIndices_of_exists hh
    exact mem_hyperedgeIndices_of_exists ((hhyperedge h).trans hh)

/-- A vertex removed at 2 still counts at 1. -/
theorem past_immutable_removed :
    countVerticesAt ([TemporalEvent.vertexRemoved 2 0 ()].foldl EventLog.append
        (EventLog.ofEvents [(.vertexAdded 1 0 () : TemporalEvent Unit Unit)])) 1 =
      countVerticesAt
        (EventLog.ofEvents [(.vertexAdded 1 0 () : TemporalEvent Unit Unit)]) 1 :=
  (past_immutable _ 1 [.vertexRemoved 2 0 ()] (by decide)).2.2.2.2.2.1

end Later

end Koalisi.Topology
