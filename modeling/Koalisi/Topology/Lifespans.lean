import Koalisi.Lib.Lifetimes
import Koalisi.Topology.Episodes
import Koalisi.Topology.MapGraph

/-!
# Lifespans

The lifespan of an object is read off the ends of its history: it was created by the first
event that adds it, and removed by the last one that removes it and is not followed by an
addition.  The query at an instant folds the history up to it instead.  For one object an
event of the log is a `Moment`, and both readings follow from the list of these.

They agree on the log of a run without clears that joins distinct hyperedges, if no index is
handed out twice (`lifespan_agrees_with_existence`): then an object has one life.  The graph
need not be new.  Of the objects it held before the run the log does not tell, so what is
followed is the life of those the run has added (`Follows`).
-/

namespace Koalisi.Topology

open Koalisi.Lib Koalisi.Lib.Timeline Koalisi.Topology.Hypergraph

variable {G V HE E : Type}

/-! ## The queries -/

/-- When a vertex was created. -/
def vertexCreatedAt (events : EventLog V HE) (vertex : VertexIndex) : Option Timestamp :=
  (events.vertexEvents vertex).findSome? fun
    | .vertexAdded timestamp _ _ => some timestamp
    | _ => none

/-- When a vertex was removed, across one event of its history. -/
def vertexRemovedStep (removedAt : Option Timestamp) : TemporalEvent V HE → Option Timestamp
  | .vertexAdded .. => none
  | .vertexRemoved timestamp _ _ => some timestamp
  | _ => removedAt

/-- When a vertex was removed. -/
def vertexRemovedAt (events : EventLog V HE) (vertex : VertexIndex) : Option Timestamp :=
  (events.vertexEvents vertex).foldl vertexRemovedStep none

/-- When a hyperedge was created. -/
def hyperedgeCreatedAt (events : EventLog V HE) (hyperedge : HyperedgeIndex) :
    Option Timestamp :=
  (events.hyperedgeEvents hyperedge).findSome? fun
    | .hyperedgeAdded timestamp _ _ _ => some timestamp
    | _ => none

/-- When a hyperedge was removed, across one event of its history. -/
def hyperedgeRemovedStep (hyperedge : HyperedgeIndex) (removedAt : Option Timestamp) :
    TemporalEvent V HE → Option Timestamp
  | .hyperedgeAdded .. => none
  | .hyperedgeRemoved timestamp _ _ _ => some timestamp
  | .hyperedgesJoined timestamp _ sourceIndices _ =>
      if hyperedge ∈ sourceIndices then some timestamp else removedAt
  | _ => removedAt

/-- When a hyperedge was removed. -/
def hyperedgeRemovedAt (events : EventLog V HE) (hyperedge : HyperedgeIndex) :
    Option Timestamp :=
  (events.hyperedgeEvents hyperedge).foldl (hyperedgeRemovedStep hyperedge) none

/-- The time range during which a vertex existed. -/
def vertexLifespan (events : EventLog V HE) (vertex : VertexIndex) : Option TimeRange := do
  let created ← vertexCreatedAt events vertex
  let removed := vertexRemovedAt events vertex
  return ⟨some created, removed⟩

/-- The time range during which a hyperedge existed. -/
def hyperedgeLifespan (events : EventLog V HE) (hyperedge : HyperedgeIndex) :
    Option TimeRange := do
  let created ← hyperedgeCreatedAt events hyperedge
  let removed := hyperedgeRemovedAt events hyperedge
  return ⟨some created, removed⟩

/-! ## The moments of an object -/

namespace TemporalEvent

/-- What an event is for a vertex. -/
def vertexMoment (v : VertexIndex) (e : TemporalEvent V HE) : Moment Timestamp where
  time := e.timestamp
  stops := match e with
    | .vertexRemoved _ index _ => index = v
    | _ => false
  starts := match e with
    | .vertexAdded _ index _ => index = v
    | _ => false

/-- What an event is for a hyperedge. -/
def hyperedgeMoment (h : HyperedgeIndex) (e : TemporalEvent V HE) : Moment Timestamp where
  time := e.timestamp
  stops := match e with
    | .hyperedgeRemoved _ index _ _ => index = h
    | .hyperedgesJoined _ _ sourceIndices _ => h ∈ sourceIndices
    | _ => false
  starts := match e with
    | .hyperedgeAdded _ index _ _ => index = h
    | _ => false

theorem starts_vertexMoment {v : VertexIndex} {e : TemporalEvent V HE} :
    (e.vertexMoment v).starts = true ↔ e.addedVertex = some v := by
  cases e <;> simp [vertexMoment, addedVertex]

theorem starts_hyperedgeMoment {h : HyperedgeIndex} {e : TemporalEvent V HE} :
    (e.hyperedgeMoment h).starts = true ↔ e.addedHyperedge = some h := by
  cases e <;> simp [hyperedgeMoment, addedHyperedge]

end TemporalEvent

section Readings

variable (es : List (TemporalEvent V HE)) (v : VertexIndex) (h : HyperedgeIndex)

/-- What was added is born. -/
theorem born_vertexMoments : Moment.born (es.map (TemporalEvent.vertexMoment v)) ≠ none ↔
    v ∈ es.filterMap TemporalEvent.addedVertex := by
  rw [Ne, Moment.born_eq_none, List.mem_filterMap]
  simp only [List.forall_mem_map, Bool.eq_false_iff, Ne, TemporalEvent.starts_vertexMoment,
    not_forall, not_not, exists_prop]

theorem born_hyperedgeMoments : Moment.born (es.map (TemporalEvent.hyperedgeMoment h)) ≠ none ↔
    h ∈ es.filterMap TemporalEvent.addedHyperedge := by
  rw [Ne, Moment.born_eq_none, List.mem_filterMap]
  simp only [List.forall_mem_map, Bool.eq_false_iff, Ne, TemporalEvent.starts_hyperedgeMoment,
    not_forall, not_not, exists_prop]

/-- A fold over the events of an object is a fold over its moments, if each step is. -/
theorem objectFold_eq_foldl_moments {α : Type} {keys : TemporalEvent V HE → List Nat} {k : Nat}
    {f : α → TemporalEvent V HE → α} {moment : TemporalEvent V HE → Moment Timestamp}
    {g : α → Moment Timestamp → α}
    (hstep : ∀ a e, (if k ∈ keys e then f a e else a) = g a (moment e)) (a : α) :
    objectFold keys k f a es = (es.map moment).foldl g a := by
  rw [objectFold, List.foldl_map]
  simp only [hstep]

theorem vertexAlive_eq_present :
    vertexAlive es v = Moment.present (es.map (TemporalEvent.vertexMoment v)) := by
  refine objectFold_eq_foldl_moments es (fun a e ↦ ?_) false
  cases e <;> simp [TemporalEvent.vertexKeys, TemporalEvent.vertexIndex, vertexExistsStep,
    TemporalEvent.vertexMoment, Moment.presentAfter, eq_comm]

theorem hyperedgeAlive_eq_present :
    hyperedgeAlive es h = Moment.present (es.map (TemporalEvent.hyperedgeMoment h)) := by
  refine objectFold_eq_foldl_moments es (fun a e ↦ ?_) false
  cases e with
  | hyperedgesJoined _ target sources new =>
      -- The target role says nothing about existence.
      by_cases hm : h ∈ sources <;> simp [TemporalEvent.hyperedgeKeys,
        TemporalEvent.hyperedgeIndex, hyperedgeExistsStep, TemporalEvent.hyperedgeMoment,
        Moment.presentAfter, hm]
  | _ => simp [TemporalEvent.hyperedgeKeys, TemporalEvent.hyperedgeIndex, hyperedgeExistsStep,
      TemporalEvent.hyperedgeMoment, Moment.presentAfter, eq_comm]

end Readings

section Logs

variable (log : EventLog V HE) (v : VertexIndex) (h : HyperedgeIndex)

theorem vertexCreatedAt_eq :
    vertexCreatedAt log v = Moment.born (log.events.map (TemporalEvent.vertexMoment v)) := by
  rw [vertexCreatedAt, EventLog.vertexEvents_eq, findSome?_mentions, Moment.born,
    List.findSome?_map]
  congr 1
  funext e
  cases e <;> simp [TemporalEvent.vertexKeys, TemporalEvent.vertexIndex,
    TemporalEvent.vertexMoment, TemporalEvent.timestamp, @eq_comm _ v]

theorem hyperedgeCreatedAt_eq :
    hyperedgeCreatedAt log h = Moment.born (log.events.map (TemporalEvent.hyperedgeMoment h)) := by
  rw [hyperedgeCreatedAt, EventLog.hyperedgeEvents_eq, findSome?_mentions, Moment.born,
    List.findSome?_map]
  congr 1
  funext e
  cases e <;> simp [TemporalEvent.hyperedgeKeys, TemporalEvent.hyperedgeIndex,
    TemporalEvent.hyperedgeMoment, TemporalEvent.timestamp, @eq_comm _ h]

theorem vertexRemovedStep_idem (a : Option Timestamp) (e : TemporalEvent V HE) :
    vertexRemovedStep (vertexRemovedStep a e) e = vertexRemovedStep a e := by
  cases e <;> rfl

theorem hyperedgeRemovedStep_idem (a : Option Timestamp) (e : TemporalEvent V HE) :
    hyperedgeRemovedStep h (hyperedgeRemovedStep h a e) e = hyperedgeRemovedStep h a e := by
  cases e with
  | hyperedgesJoined _ _ sources _ => simp only [hyperedgeRemovedStep]; split <;> rfl
  | _ => rfl

theorem vertexRemovedAt_eq :
    vertexRemovedAt log v = Moment.gone (log.events.map (TemporalEvent.vertexMoment v)) := by
  rw [vertexRemovedAt, EventLog.vertexEvents_eq, foldl_mentions _ v vertexRemovedStep_idem]
  refine objectFold_eq_foldl_moments log.events (fun a e ↦ ?_) none
  cases e <;> simp [TemporalEvent.vertexKeys, TemporalEvent.vertexIndex, vertexRemovedStep,
    TemporalEvent.vertexMoment, TemporalEvent.timestamp, Moment.goneAfter, eq_comm]

theorem hyperedgeRemovedAt_eq :
    hyperedgeRemovedAt log h = Moment.gone (log.events.map (TemporalEvent.hyperedgeMoment h)) := by
  rw [hyperedgeRemovedAt, EventLog.hyperedgeEvents_eq,
    foldl_mentions _ h (hyperedgeRemovedStep_idem h)]
  refine objectFold_eq_foldl_moments log.events (fun a e ↦ ?_) none
  cases e with
  | hyperedgesJoined _ target sources new =>
      by_cases hm : h ∈ sources <;> simp [TemporalEvent.hyperedgeKeys,
        TemporalEvent.hyperedgeIndex, hyperedgeRemovedStep, TemporalEvent.hyperedgeMoment,
        TemporalEvent.timestamp, Moment.goneAfter, hm]
  | _ => simp [TemporalEvent.hyperedgeKeys, TemporalEvent.hyperedgeIndex, hyperedgeRemovedStep,
      TemporalEvent.hyperedgeMoment, TemporalEvent.timestamp, Moment.goneAfter, eq_comm]

/-- A range from a creation to a removal contains the instants at which the object lives. -/
theorem exists_range_iff {created removed : Option Timestamp} {ms : List (Moment Timestamp)}
    (hcreated : created = Moment.born ms) (hremoved : removed = Moment.gone ms) (t : Timestamp) :
    (∃ range, (created.bind fun c ↦ some (⟨some c, removed⟩ : TimeRange)) = some range ∧
      range.contains t = true) ↔ Moment.Lives ms t := by
  rw [Moment.Lives, ← hcreated, ← hremoved]
  constructor
  · rintro ⟨range, hrange, hcontains⟩
    obtain ⟨c, hc, hr⟩ := Option.bind_eq_some_iff.mp hrange
    cases hr
    obtain ⟨hle, hlt⟩ := Bool.and_eq_true_iff.mp hcontains
    refine ⟨c, hc, of_decide_eq_true hle, fun d hd ↦ ?_⟩
    subst hd
    exact of_decide_eq_true hlt
  · rintro ⟨c, hc, hle, hlt⟩
    refine ⟨⟨some c, removed⟩, by rw [hc]; rfl, Bool.and_eq_true_iff.mpr ⟨decide_eq_true hle, ?_⟩⟩
    cases removed with
    | none => rfl
    | some d => exact decide_eq_true (hlt d rfl)

variable {log v h}

theorem vertexLifespan_contains (t : Timestamp) :
    (∃ range, vertexLifespan log v = some range ∧ range.contains t = true) ↔
      Moment.Lives (log.events.map (TemporalEvent.vertexMoment v)) t :=
  exists_range_iff (vertexCreatedAt_eq log v) (vertexRemovedAt_eq log v) t

theorem hyperedgeLifespan_contains (t : Timestamp) :
    (∃ range, hyperedgeLifespan log h = some range ∧ range.contains t = true) ↔
      Moment.Lives (log.events.map (TemporalEvent.hyperedgeMoment h)) t :=
  exists_range_iff (hyperedgeCreatedAt_eq log h) (hyperedgeRemovedAt_eq log h) t

theorem vertexLifespan_eq_none : vertexLifespan log v = none ↔
    Moment.born (log.events.map (TemporalEvent.vertexMoment v)) = none := by
  rw [← vertexCreatedAt_eq]
  unfold vertexLifespan
  cases vertexCreatedAt log v <;> simp

theorem hyperedgeLifespan_eq_none : hyperedgeLifespan log h = none ↔
    Moment.born (log.events.map (TemporalEvent.hyperedgeMoment h)) = none := by
  rw [← hyperedgeCreatedAt_eq]
  unfold hyperedgeLifespan
  cases hyperedgeCreatedAt log h <;> simp

end Logs

theorem Stamped.vertexExistsAt_eq {value : TemporalHypergraph G V HE} (hs : Stamped value)
    (v : VertexIndex) (t : Timestamp) : vertexExistsAt value.events v t =
      Moment.presentAt (value.events.events.map (TemporalEvent.vertexMoment v)) t := by
  have hsplit := hs.splitsAt_take t
  rw [hsplit.vertexExistsAt_eq, vertexAlive_eq_present, hsplit.presentAt_eq _ fun _ ↦ rfl]

theorem Stamped.hyperedgeExistsAt_eq {value : TemporalHypergraph G V HE} (hs : Stamped value)
    (h : HyperedgeIndex) (t : Timestamp) : hyperedgeExistsAt value.events h t =
      Moment.presentAt (value.events.events.map (TemporalEvent.hyperedgeMoment h)) t := by
  have hsplit := hs.splitsAt_take t
  rw [hsplit.hyperedgeExistsAt_eq, hyperedgeAlive_eq_present, hsplit.presentAt_eq _ fun _ ↦ rfl]

/-! ## Runs -/

/-- What a list of events has added is alive for the queries when it is in the contents `s`. -/
structure Follows (es : List (TemporalEvent V HE)) (s : GraphState V HE) : Prop where
  vertices : ∀ v ∈ es.filterMap TemporalEvent.addedVertex,
    vertexAlive es v = (s.vertices v).isSome
  hyperedges : ∀ h ∈ es.filterMap TemporalEvent.addedHyperedge,
    hyperedgeAlive es h = (s.hyperedges h).isSome

theorem mem_filterMap_concat {β : Type} {f : TemporalEvent V HE → Option β}
    {es : List (TemporalEvent V HE)} {e : TemporalEvent V HE} {b : β}
    (h : b ∈ (es ++ [e]).filterMap f) : b ∈ es.filterMap f ∨ f e = some b := by
  rw [List.filterMap_append, List.mem_append] at h
  refine h.imp_right fun h ↦ ?_
  obtain ⟨e', he', hb⟩ := List.mem_filterMap.mp h
  rwa [List.mem_singleton.mp he'] at hb

/-- What an event names, and no two events of a list name the same, was not named before. -/
theorem not_mem_of_nodup {β : Type} {f : TemporalEvent V HE → Option β}
    {es front back : List (TemporalEvent V HE)} {e : TemporalEvent V HE} {b : β}
    (hnodup : (es.filterMap f).Nodup) (hes : es = front ++ e :: back) (hb : f e = some b) :
    b ∉ front.filterMap f := by
  intro hm
  rw [hes, List.filterMap_append] at hnodup
  exact List.disjoint_of_nodup_append hnodup hm
    (List.mem_filterMap.mpr ⟨e, List.mem_cons_self, hb⟩)

/-- One more event, which is no clear. -/
theorem Follows.snoc {es : List (TemporalEvent V HE)} {s : GraphState V HE}
    {e : TemporalEvent V HE} (hf : Follows es s) (hl : e.Legal s) (hc : e.clears = none)
    (hj : e.JoinsApart) : Follows (es ++ [e]) (e.effect s) where
  vertices v hv := by
    have hclears : e.ClearsNothing s := by
      rw [TemporalEvent.ClearsNothing, hc]
      trivial
    rcases mem_filterMap_concat hv with hv | hv
    · exact vertexAlive_snoc hl hclears (hf.vertices v hv)
    · cases e with
      | vertexAdded t index w =>
          cases hv
          have hk : v ∈ (TemporalEvent.vertexAdded t v w : TemporalEvent V HE).vertexKeys :=
            List.mem_singleton_self v
          rw [vertexAlive_concat, if_pos hk]
          simp [vertexExistsStep, TemporalEvent.effect, GraphState.setVertex]
      | _ => cases hv
  hyperedges h hh := by
    have hclears : e.ClearsNothing s := by
      rw [TemporalEvent.ClearsNothing, hc]
      trivial
    rcases mem_filterMap_concat hh with hh | hh
    · rw [hyperedgeAlive_concat, hf.hyperedges h hh]
      split
      · rename_i hk
        exact (hyperedgeStep_effect hl hj hk).1
      · rename_i hk
        rw [effect_hyperedges_of_unmentioned hclears hk]
    · cases e with
      | hyperedgeAdded t index members w =>
          cases hh
          have hk : h ∈ (TemporalEvent.hyperedgeAdded t h members w :
              TemporalEvent V HE).hyperedgeKeys := List.mem_singleton_self h
          rw [hyperedgeAlive_concat, if_pos hk]
          simp [hyperedgeExistsStep, TemporalEvent.effect, GraphState.setHyperedge]
      | _ => cases hh

/-- No vertex and no hyperedge is added twice. -/
def NeverReused (es : List (TemporalEvent V HE)) : Prop :=
  (es.filterMap TemporalEvent.addedVertex).Nodup ∧
    (es.filterMap TemporalEvent.addedHyperedge).Nodup

section Runs

variable [Hypergraph G V HE E]

theorem events_fresh (graph : G) (tap : Option (Channel (TemporalEvent V HE))) :
    (fresh graph tap).events.events = [] := by
  cases tap <;> rfl

section Lawful

variable [LawfulHypergraph G]

/-- In a run without clears, whose joins are of distinct hyperedges, the log follows the
graph. -/
theorem follows_of_run {graph : G} {tap : Option (Channel (TemporalEvent V HE))}
    {ops : List (Op V HE E)} {fin : TemporalHypergraph G V HE}
    (hrun : run ops (fresh graph tap) = some fin) (hclears : ∀ op ∈ ops, op.clears = none)
    (hjoins : ∀ op ∈ ops, op.JoinsDistinct) : Follows fin.events.events (state fin.graph) := by
  revert hclears hjoins
  refine run_induction (P := fun ops fin ↦ (∀ op ∈ ops, op.clears = none) →
    (∀ op ∈ ops, op.JoinsDistinct) → Follows fin.events.events (state fin.graph)) ?_ ?_ hrun
  · intro _ _
    rw [events_fresh]
    exact ⟨fun v hv ↦ absurd hv List.not_mem_nil, fun h hh ↦ absurd hh List.not_mem_nil⟩
  · intro ops op mid _ _ ih hclears hjoins
    have hmid := ih (fun op hop ↦ hclears op (List.mem_append_left _ hop))
      fun op hop ↦ hjoins op (List.mem_append_left _ hop)
    rcases op.apply_cases mid with hf | ⟨event, hr, hcl, hap⟩
    · rcases hf with hf | hf <;> rw [hf] <;> exact hmid
    · rw [hr.events, EventLog.events_append, hr.graph]
      exact hmid.snoc hr.legal (hcl.trans (hclears op (by simp))) (hap (hjoins op (by simp)))

end Lawful

section Guarded

variable [GuardedHypergraph G]

/-- An event of a run that removes a hyperedge finds it alive. -/
theorem live_of_stops {op : Op V HE E} {mid : TemporalHypergraph G V HE}
    {e : TemporalEvent V HE} (hr : Records mid e (op.apply mid)) {h : HyperedgeIndex}
    (hstops : (e.hyperedgeMoment h).stops = true) : (state mid.graph).hyperedges h ≠ none := by
  cases e with
  | hyperedgeRemoved _ index members w =>
      obtain rfl : index = h := of_decide_eq_true hstops
      rw [show _ = _ from hr.legal]
      exact Option.some_ne_none _
  | hyperedgesJoined _ target sources new =>
      have hm : h ∈ sources := of_decide_eq_true hstops
      rcases call_of_records hr with ⟨_, _, he⟩ | ⟨call, graph, finish, _, _, hj, he⟩
      · cases he
      · cases call with
        | joinHyperedges indices =>
            obtain ⟨_, _, hjoin, _, _, rfl⟩ := merge_eq_ok.mp hj
            cases he
            exact GuardedHypergraph.joinHyperedges_live indices _ graph _ hjoin h
              (List.mem_of_mem_tail hm)
        | _ =>
            obtain ⟨_, _, rfl⟩ := mutation_eq_ok.mp hj
            cases he
  | _ => cases hstops

variable {graph : G} {tap : Option (Channel (TemporalEvent V HE))} {ops : List (Op V HE E)}
  {fin : TemporalHypergraph G V HE}

/-- Where an event was recorded, the log before it follows the graph. -/
theorem follows_of_event (hrun : run ops (fresh graph tap) = some fin)
    (hclears : ∀ op ∈ ops, op.clears = none) (hjoins : ∀ op ∈ ops, op.JoinsDistinct)
    {es gs : List (TemporalEvent V HE)} {e : TemporalEvent V HE}
    (hs : fin.events.events = es ++ e :: gs) :
    ∃ (op : Op V HE E) (mid : TemporalHypergraph G V HE),
      Records mid e (op.apply mid) ∧ Follows es (state mid.graph) := by
  obtain ⟨ops₁, op, ops₂, mid, rfl, hmid, rfl, hr, _⟩ := run_fresh_event hrun hs
  exact ⟨op, mid, hr, follows_of_run hmid
    (fun op hop ↦ hclears op (List.mem_append_left _ hop))
    fun op hop ↦ hjoins op (List.mem_append_left _ hop)⟩

/-- A vertex of a run has one life, if no index is handed out twice. -/
theorem oneLife_vertex (hrun : run ops (fresh graph tap) = some fin)
    (hclears : ∀ op ∈ ops, op.clears = none) (hjoins : ∀ op ∈ ops, op.JoinsDistinct)
    (hnew : NeverReused fin.events.events) (v : VertexIndex) :
    Moment.OneLife (fin.events.events.map (TemporalEvent.vertexMoment v)) := by
  apply Moment.OneLife.of_map
  intro es e gs hs
  obtain ⟨op, mid, hr, hfollows⟩ := follows_of_event hrun hclears hjoins hs
  constructor
  · intro hstarts
    refine not_not.mp (mt (born_vertexMoments es v).mp ?_)
    exact not_mem_of_nodup hnew.1 hs (TemporalEvent.starts_vertexMoment.mp hstarts)
  · intro hstops hborn
    rw [← vertexAlive_eq_present, hfollows.vertices v ((born_vertexMoments es v).mp hborn)]
    cases e with
    | vertexRemoved _ index w =>
        obtain rfl : index = v := of_decide_eq_true hstops
        rw [show _ = _ from hr.legal]
        rfl
    | _ => cases hstops

/-- So has a hyperedge. -/
theorem oneLife_hyperedge (hrun : run ops (fresh graph tap) = some fin)
    (hclears : ∀ op ∈ ops, op.clears = none) (hjoins : ∀ op ∈ ops, op.JoinsDistinct)
    (hnew : NeverReused fin.events.events) (h : HyperedgeIndex) :
    Moment.OneLife (fin.events.events.map (TemporalEvent.hyperedgeMoment h)) := by
  apply Moment.OneLife.of_map
  intro es e gs hs
  obtain ⟨op, mid, hr, hfollows⟩ := follows_of_event hrun hclears hjoins hs
  constructor
  · intro hstarts
    refine not_not.mp (mt (born_hyperedgeMoments es h).mp ?_)
    exact not_mem_of_nodup hnew.2 hs (TemporalEvent.starts_hyperedgeMoment.mp hstarts)
  · intro hstops hborn
    rw [← hyperedgeAlive_eq_present,
      hfollows.hyperedges h ((born_hyperedgeMoments es h).mp hborn)]
    exact Option.ne_none_iff_isSome.mp (live_of_stops hr hstops)

/-- **Lifespans agree with existence.**  On the log of a run without clears that joins distinct
hyperedges, and in which no index is handed out twice, the lifespan of a vertex or a hyperedge
is a range that contains an instant exactly when the object exists at that instant, and there
is none exactly when it never exists. -/
theorem lifespan_agrees_with_existence (graph : G)
    (tap : Option (Channel (TemporalEvent V HE))) (ops : List (Op V HE E))
    (fin : TemporalHypergraph G V HE) (hrun : run ops (fresh graph tap) = some fin)
    (hclears : ∀ op ∈ ops, op.clears = none) (hjoins : ∀ op ∈ ops, op.JoinsDistinct)
    (hnew : NeverReused fin.events.events) :
    (∀ v, (∀ t, (∃ range, vertexLifespan fin.events v = some range ∧ range.contains t = true) ↔
        vertexExistsAt fin.events v t = true) ∧
      (vertexLifespan fin.events v = none ↔ ∀ t, vertexExistsAt fin.events v t = false)) ∧
    ∀ h, (∀ t, (∃ range, hyperedgeLifespan fin.events h = some range ∧
        range.contains t = true) ↔ hyperedgeExistsAt fin.events h t = true) ∧
      (hyperedgeLifespan fin.events h = none ↔ ∀ t, hyperedgeExistsAt fin.events h t = false) := by
  have hstamped : Stamped fin := (stamped_fresh graph tap).run hrun
  have hvertex := oneLife_vertex hrun hclears hjoins hnew
  have hhyperedge := oneLife_hyperedge hrun hclears hjoins hnew
  refine ⟨fun v ↦ ⟨fun t ↦ ?_, ?_⟩, fun h ↦ ⟨fun t ↦ ?_, ?_⟩⟩
  · rw [vertexLifespan_contains, hstamped.vertexExistsAt_eq]
    exact Moment.lives_iff_presentAt (hstamped.moments_sorted _ fun _ ↦ rfl) (hvertex v) t
  · simp only [vertexLifespan_eq_none, hstamped.vertexExistsAt_eq]
    exact Moment.born_eq_none_iff (hstamped.moments_sorted _ fun _ ↦ rfl) (hvertex v)
  · rw [hyperedgeLifespan_contains, hstamped.hyperedgeExistsAt_eq]
    exact Moment.lives_iff_presentAt (hstamped.moments_sorted _ fun _ ↦ rfl) (hhyperedge h) t
  · simp only [hyperedgeLifespan_eq_none, hstamped.hyperedgeExistsAt_eq]
    exact Moment.born_eq_none_iff (hstamped.moments_sorted _ fun _ ↦ rfl) (hhyperedge h)

end Guarded

end Runs

/-- Two hyperedges are joined, and the target is removed. -/
def joinRemoveOps : List (Op Nat Nat MapGraphError) :=
  [.mutate (.addVertex 10), .mutate (.addHyperedge [0] 5), .mutate (.addHyperedge [0] 6),
    .mutate (.joinHyperedges [0, 1]), .mutate (.removeVertex 0), .mutate (.removeHyperedge 0)]

/-- The join ends the lifespan of its source, and not that of its target. -/
theorem lifespan_agrees_with_existence_joined :
    ∃ fin : TemporalHypergraph (MapGraph Nat Nat) Nat Nat,
      run joinRemoveOps (start none) = some fin ∧
      hyperedgeLifespan fin.events 1 = some (.between 2 3) ∧
      hyperedgeExistsAt fin.events 1 3 = false ∧ hyperedgeExistsAt fin.events 0 4 = true := by
  have hrun : run joinRemoveOps (start none : TemporalHypergraph (MapGraph Nat Nat) Nat Nat) =
    some (issue joinRemoveOps (start none)) := rfl
  have h := lifespan_agrees_with_existence (Hypergraph.new : MapGraph Nat Nat) none joinRemoveOps
    _ hrun (by simp [joinRemoveOps, Op.clears, Call.clears])
    (by simp [joinRemoveOps, Op.JoinsDistinct, Call.JoinsDistinct])
    ⟨by decide, by decide⟩
  refine ⟨_, hrun, rfl, ?_, ((h.2 0).1 4).mp ⟨.between 1 5, rfl, by decide⟩⟩
  rw [← Bool.not_eq_true, ← (h.2 1).1 3]
  rintro ⟨range, hrange, hcontains⟩
  cases hrange
  cases hcontains

end Koalisi.Topology
