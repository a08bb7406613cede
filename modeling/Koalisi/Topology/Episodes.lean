import Koalisi.Lib.Spells
import Koalisi.Topology.Clears
import Koalisi.Topology.Coalitions

/-!
# The coalition history of an agent

`agent_coalition_history` reads the whole log once and lists the spells of an agent in
every coalition it has belonged to, as ranges of time.  The point-in-time query reads the
events of one coalition up to an instant.  For one agent and one coalition an event is a
`Moment` of `Spells`, and both readings follow from the list of these moments.

A merge starts a spell of every member in its target, also of those who belonged to it
already; so the history forgets that they did (`history_forgets_a_merge`).  It agrees with
the query for the agents, and the coalitions, for which no merge does that
(`history_agrees_iff`).
-/

namespace Koalisi.Topology

open Koalisi.Lib Koalisi.Lib.Timeline Koalisi.Topology.Hypergraph

variable {G V HE E : Type}

namespace CoalitionManager

/-- The ranges that are over, and where the agent is a member since when. -/
structure Episodes where
  history : List (HyperedgeIndex × TimeRange)
  /-- A map that is read back in no particular order. -/
  membershipStart : Std.TreeMap HyperedgeIndex Timestamp

namespace Episodes

/-- The agent becomes a member. -/
def insert (x : Episodes) (index : HyperedgeIndex) (timestamp : Timestamp) : Episodes :=
  { x with membershipStart := x.membershipStart.insert index timestamp }

/-- The agent is a member no longer, if it was one. -/
def remove (x : Episodes) (index : HyperedgeIndex) (timestamp : Timestamp) : Episodes :=
  match x.membershipStart[index]? with
  | some start =>
      { history := x.history ++ [(index, ⟨some start, some timestamp⟩)]
        membershipStart := x.membershipStart.erase index }
  | none => x

/-- The members of a coalition are replaced. -/
def replace (x : Episodes) (agent : VertexIndex) (index : HyperedgeIndex) (timestamp : Timestamp)
    (oldVertices newVertices : List VertexIndex) : Episodes :=
  match decide (agent ∈ oldVertices), decide (agent ∈ newVertices) with
  | false, true => x.insert index timestamp
  | true, false => x.remove index timestamp
  | _, _ => x

/-- One event of the log. -/
def step (agent : VertexIndex) (x : Episodes) : TemporalEvent V HE → Episodes
  | .hyperedgeAdded timestamp index vertices _ =>
      if agent ∈ vertices then x.insert index timestamp else x
  | .hyperedgeRemoved timestamp index _ _ => x.remove index timestamp
  | .hyperedgeVerticesUpdated timestamp index oldVertices newVertices =>
      x.replace agent index timestamp oldVertices newVertices
  | .hyperedgesJoined timestamp targetIndex sourceIndices newVertices =>
      let x := sourceIndices.foldl (fun x source ↦ x.remove source timestamp) x
      if agent ∈ newVertices then x.insert targetIndex timestamp else x
  | .verticesContracted timestamp hyperedgeIndex _ _ oldVertices newVertices =>
      x.replace agent hyperedgeIndex timestamp oldVertices newVertices
  | _ => x

/-- The whole log. -/
def ofEvents (agent : VertexIndex) (es : List (TemporalEvent V HE)) : Episodes :=
  es.foldl (step agent) ⟨[], ∅⟩

end Episodes

/-- All coalitions an agent has belonged to over time. -/
def agentCoalitionHistory (events : EventLog V HE) (agent : VertexIndex) :
    List (HyperedgeIndex × TimeRange) :=
  let x := Episodes.ofEvents agent events.events
  x.history ++ x.membershipStart.toList.map fun (index, start) ↦ (index, ⟨some start, none⟩)

/-- The members of a coalition at a specific point in time. -/
def coalitionMembersAt (events : EventLog V HE) (coalition : HyperedgeIndex)
    (timestamp : Timestamp) : Option (List VertexIndex) :=
  hyperedgeVerticesAt events coalition timestamp

/-- Whether an agent was a member of a coalition at a specific time. -/
def wasMemberAt (events : EventLog V HE) (agent : VertexIndex) (coalition : HyperedgeIndex)
    (timestamp : Timestamp) : Bool :=
  (coalitionMembersAt events coalition timestamp).any fun members ↦ agent ∈ members

end CoalitionManager

open CoalitionManager

/-! ## Moments of a log -/

/-- The moments of a log up to an instant at which it splits are those of its first part. -/
theorem SplitsAt.presentAt_eq {log : EventLog V HE} {t : Timestamp}
    {es : List (TemporalEvent V HE)} (h : SplitsAt log t es)
    (moment : TemporalEvent V HE → Moment Timestamp)
    (htime : ∀ e, (moment e).time = e.timestamp) :
    Moment.presentAt (log.events.map moment) t = Moment.present (es.map moment) := by
  obtain ⟨fs, hfs, hlate⟩ := h.split
  have hearly : (es.map moment).filter (fun m ↦ decide (m.time ≤ t)) = es.map moment := by
    refine List.filter_eq_self.mpr fun m hm ↦ ?_
    obtain ⟨e, he, rfl⟩ := List.mem_map.mp hm
    rw [htime]
    exact decide_eq_true (h.early e he)
  have hnone : (fs.map moment).filter (fun m ↦ decide (m.time ≤ t)) = [] := by
    refine List.filter_eq_nil_iff.mpr fun m hm ↦ ?_
    obtain ⟨e, he, rfl⟩ := List.mem_map.mp hm
    rw [htime, decide_eq_true_eq]
    exact not_le_of_gt (hlate e he)
  rw [Moment.presentAt, hfs, List.map_append, List.filter_append, hearly, hnone, List.append_nil]

/-- The moments of a log come one after the other. -/
theorem Stamped.moments_sorted {value : TemporalHypergraph G V HE} (hc : Stamped value)
    (moment : TemporalEvent V HE → Moment Timestamp)
    (htime : ∀ e, (moment e).time = e.timestamp) :
    (value.events.events.map moment).Pairwise fun m m' ↦ m.time < m'.time := by
  refine List.pairwise_map.mpr (hc.sorted.imp fun hlt ↦ ?_)
  rw [htime, htime]
  exact hlt

/-! ## The spells of an agent in a coalition -/

/-- What an event is for an agent in a coalition. -/
def TemporalEvent.moment (agent : VertexIndex) (h : HyperedgeIndex) (e : TemporalEvent V HE) :
    Moment Timestamp where
  time := e.timestamp
  stops := match e with
    | .hyperedgeRemoved _ index _ _ => index = h
    | .hyperedgeVerticesUpdated _ index old new => index = h ∧ agent ∈ old ∧ agent ∉ new
    | .hyperedgesJoined _ _ sources _ => h ∈ sources
    | .verticesContracted _ index _ _ old new => index = h ∧ agent ∈ old ∧ agent ∉ new
    | _ => false
  starts := match e with
    | .hyperedgeAdded _ index vertices _ => index = h ∧ agent ∈ vertices
    | .hyperedgeVerticesUpdated _ index old new => index = h ∧ agent ∉ old ∧ agent ∈ new
    | .hyperedgesJoined _ target _ new => target = h ∧ agent ∈ new
    | .verticesContracted _ index _ _ old new => index = h ∧ agent ∉ old ∧ agent ∈ new
    | _ => false

/-- The spells of an agent in a coalition, as the history has them. -/
def CoalitionManager.Episodes.spells (x : Episodes) (h : HyperedgeIndex) : Spells Timestamp where
  past := x.history.filterMap fun (index, range) ↦
    if index = h then (do return (← range.start, ← range.stop)) else none
  since := x.membershipStart[h]?

section Spells

variable {x : Episodes} {agent : VertexIndex} {h : HyperedgeIndex}

theorem spells_insert (index : HyperedgeIndex) (t : Timestamp) :
    (x.insert index t).spells h = if index = h then (x.spells h).start t else x.spells h := by
  unfold Episodes.insert Episodes.spells
  simp only [Std.TreeMap.getElem?_insert, compare_eq_iff_eq]
  split <;> rfl

theorem spells_remove (index : HyperedgeIndex) (t : Timestamp) :
    (x.remove index t).spells h = if index = h then (x.spells h).stop t else x.spells h := by
  cases hs : x.membershipStart[index]? with
  | none =>
      have hx : x.remove index t = x := by rw [Episodes.remove, hs]
      rw [hx]
      split
      · rename_i hi
        rw [Spells.stop_of_none (hi ▸ hs)]
      · rfl
  | some s =>
      have hx : x.remove index t = ⟨x.history ++ [(index, ⟨some s, some t⟩)],
          x.membershipStart.erase index⟩ := by rw [Episodes.remove, hs]
      rw [hx]
      split
      · rename_i hi
        subst hi
        rw [Spells.stop_of_some (x := x.spells index) hs]
        simp [Episodes.spells]
      · rename_i hi
        simp [Episodes.spells, hi, Std.TreeMap.getElem?_erase]

/-- An episode that is removed more than once is removed once. -/
theorem spells_removeAll (sources : List HyperedgeIndex) (t : Timestamp) :
    (sources.foldl (fun x source ↦ x.remove source t) x).spells h =
      if h ∈ sources then (x.spells h).stop t else x.spells h := by
  induction sources generalizing x with
  | nil => rfl
  | cons source sources ih =>
      rw [List.foldl_cons, ih, spells_remove]
      by_cases hs : source = h
      · subst hs
        simp [Spells.stop_stop]
      · simp [hs, Ne.symm hs]

theorem spells_replace (index : HyperedgeIndex) (t : Timestamp) (old new : List VertexIndex) :
    (x.replace agent index t old new).spells h =
      (x.spells h).moment ⟨t, decide (index = h ∧ agent ∈ old ∧ agent ∉ new),
        decide (index = h ∧ agent ∉ old ∧ agent ∈ new)⟩ := by
  unfold Episodes.replace Spells.moment
  by_cases hold : agent ∈ old <;> by_cases hnew : agent ∈ new <;>
    simp [hold, hnew, spells_insert, spells_remove]

/-- One event does to the spells of an agent in a coalition what its moment does. -/
theorem spells_step (e : TemporalEvent V HE) :
    (x.step agent e).spells h = (x.spells h).moment (e.moment agent h) := by
  cases e with
  | hyperedgeAdded t index vertices w =>
      unfold Episodes.step Spells.moment TemporalEvent.moment
      by_cases ha : agent ∈ vertices <;> simp [ha, spells_insert, TemporalEvent.timestamp]
  | hyperedgeRemoved t index vertices w =>
      unfold Episodes.step Spells.moment TemporalEvent.moment
      simp [spells_remove, TemporalEvent.timestamp]
  | hyperedgeVerticesUpdated t index old new => exact spells_replace index t old new
  | verticesContracted t index vs v old new => exact spells_replace index t old new
  | hyperedgesJoined t target sources new =>
      unfold Episodes.step Spells.moment TemporalEvent.moment
      by_cases ha : agent ∈ new <;>
        simp [ha, spells_insert, spells_removeAll, TemporalEvent.timestamp]
  | _ => rfl

theorem spells_ofEvents (es : List (TemporalEvent V HE)) :
    (Episodes.ofEvents agent es).spells h =
      Spells.recorded (es.map (TemporalEvent.moment agent h)) := by
  have hrec : ∀ (es : List (TemporalEvent V HE)) (x : Episodes),
      (es.foldl (Episodes.step agent) x).spells h =
        (es.map (TemporalEvent.moment agent h)).foldl Spells.moment (x.spells h) := by
    intro es
    induction es with
    | nil => exact fun _ ↦ rfl
    | cons e es ih =>
        intro x
        rw [List.foldl_cons, ih, spells_step]
        rfl
  rw [Episodes.ofEvents, hrec, Spells.recorded]
  rfl

end Spells

/-! ## Membership, event by event -/

/-- Whether a list of events leaves an agent in a coalition. -/
def belongs (es : List (TemporalEvent V HE)) (agent : VertexIndex) (h : HyperedgeIndex) : Bool :=
  (hyperedgeVertices es h).any fun members ↦ agent ∈ members

/-- A reversal with the members it found, a join with those of its target, or any other
event. -/
def TemporalEvent.KeepsMembers : TemporalEvent V HE → GraphState V HE → Prop
  | .hyperedgeReversed _ _ old new, _ => ∀ v, v ∈ new ↔ v ∈ old
  | .hyperedgesJoined _ target _ new, s => ∀ old, s.membersOf target = some old → ∀ v ∈ old, v ∈ new
  | _, _ => True

section Membership

variable {es : List (TemporalEvent V HE)} {e : TemporalEvent V HE} {s : GraphState V HE}
variable {agent : VertexIndex} {h : HyperedgeIndex}

/-- The members of a coalition after an event that clears nothing. -/
def TemporalEvent.membersAfter (h : HyperedgeIndex) (members : Option (List VertexIndex)) :
    TemporalEvent V HE → Option (List VertexIndex)
  | .hyperedgeAdded _ index vertices _ => if h = index then some vertices else members
  | .hyperedgeRemoved _ index _ _ => if h = index then none else members
  | .hyperedgeVerticesUpdated _ index _ new => if h = index then some new else members
  | .hyperedgeReversed _ index _ new => if h = index then some new else members
  | .hyperedgesJoined _ target sources new =>
      if h = target then some new else if h ∈ sources then none else members
  | .verticesContracted _ index _ _ _ new => if h = index then some new else members
  | _ => members

/-- The query reads the events of a coalition so. -/
theorem hyperedgeVertices_snoc :
    hyperedgeVertices (es ++ [e]) h = e.membersAfter h (hyperedgeVertices es h) := by
  rw [hyperedgeVertices_concat]
  cases e with
  | hyperedgesJoined t target sources new =>
      simp only [TemporalEvent.hyperedgeKeys, TemporalEvent.hyperedgeIndex, Option.toList_some,
        List.singleton_append, List.mem_cons, hyperedgeVerticesStep, TemporalEvent.membersAfter]
      by_cases ht : h = target
      · rw [if_pos (Or.inl ht), if_pos ht.symm, if_pos ht]
      · rw [if_neg (Ne.symm ht), if_neg ht]
        by_cases hs : h ∈ sources
        · rw [if_pos (Or.inr hs), if_pos hs]
        · rw [if_neg (not_or.mpr ⟨ht, hs⟩), if_neg hs]
  | _ => simp [TemporalEvent.hyperedgeKeys, TemporalEvent.hyperedgeIndex, hyperedgeVerticesStep,
      TemporalEvent.membersAfter]

/-- So does the graph, unless it is cleared. -/
theorem membersOf_effect (hl : e.Legal s) : (e.effect s).membersOf h =
    if e.clears = none then e.membersAfter h (s.membersOf h) else none := by
  have hset : ∀ index new, s.hyperedges index ≠ none → (s.setMembers index new).membersOf h =
      if h = index then some new else s.membersOf h := by
    intro index new hlive
    split
    · rename_i hi
      subst hi
      obtain ⟨p, hp⟩ := Option.ne_none_iff_exists'.mp hlive
      rw [GraphState.membersOf_setMembers, GraphState.membersOf, hp]
      rfl
    · rename_i hi
      exact GraphState.membersOf_setMembers_of_ne (Ne.symm hi) new
  cases e with
  | hyperedgeAdded t index vs w =>
      change Option.map _ (if h = index then _ else _) = if h = index then some vs else _
      split <;> rfl
  | hyperedgeRemoved t index vs w =>
      change Option.map _ (if h ∈ [index] then none else _) = if h = index then none else _
      by_cases hi : h = index
      · rw [if_pos (List.mem_singleton.mpr hi), if_pos hi]
        rfl
      · rw [if_neg fun hm ↦ hi (List.mem_singleton.mp hm), if_neg hi]
        rfl
  | hyperedgeWeightUpdated t index oldWeight newWeight => exact GraphState.membersOf_setWeight _
  | hyperedgeVerticesUpdated t index old new =>
      obtain ⟨w, hw⟩ := hl
      exact hset index new (by rw [hw]; exact Option.some_ne_none _)
  | hyperedgeReversed t index old new =>
      obtain ⟨w, hw⟩ := hl
      exact hset index new (by rw [hw]; exact Option.some_ne_none _)
  | verticesContracted t index vs v old new =>
      obtain ⟨w, hw⟩ := hl
      exact hset index new (by rw [hw]; exact Option.some_ne_none _)
  | hyperedgesJoined t target sources new =>
      obtain ⟨p, hp⟩ := hl
      change GraphState.membersOf (GraphState.setMembers _ target new) h =
        if h = target then some new else if h ∈ sources then none else s.membersOf h
      split
      · rename_i ht
        subst ht
        have hkept : h ∉ sources.filter (· ≠ h) := fun hm ↦ by simpa using (List.mem_filter.mp hm).2
        rw [GraphState.membersOf_setMembers,
          GraphState.membersOf_dropHyperedges_of_not_mem hkept, GraphState.membersOf, hp]
        rfl
      · rename_i ht
        rw [GraphState.membersOf_setMembers_of_ne (Ne.symm ht)]
        change Option.map _ (if h ∈ sources.filter (· ≠ target) then none else _) = _
        by_cases hs : h ∈ sources
        · rw [if_pos (List.mem_filter.mpr ⟨hs, decide_eq_true ht⟩), if_pos hs]
          rfl
        · rw [if_neg fun hf ↦ hs (List.mem_of_mem_filter hf), if_neg hs]
          rfl
  | _ => rfl

/-- An event leaves the members of a coalition alone, or says what they are. -/
theorem membersAfter_cases (e : TemporalEvent V HE) (h : HyperedgeIndex) :
    (∀ old, e.membersAfter h old = old) ∨ ∃ new, ∀ old, e.membersAfter h old = new := by
  have hite : ∀ (index : HyperedgeIndex) (new : Option (List VertexIndex)),
      (∀ old, (if h = index then new else old) = old) ∨
        ∃ new', ∀ old, (if h = index then new else old) = new' := by
    intro index new
    by_cases hi : h = index
    · exact Or.inr ⟨new, fun _ ↦ if_pos hi⟩
    · exact Or.inl fun _ ↦ if_neg hi
  cases e with
  | hyperedgeAdded t index new w => exact hite index (some new)
  | hyperedgeRemoved t index old w => exact hite index none
  | hyperedgeVerticesUpdated t index old new => exact hite index (some new)
  | hyperedgeReversed t index old new => exact hite index (some new)
  | verticesContracted t index vs v old new => exact hite index (some new)
  | hyperedgesJoined t target sources new =>
      by_cases ht : h = target
      · exact Or.inr ⟨some new, fun _ ↦ if_pos ht⟩
      · by_cases hs : h ∈ sources
        · exact Or.inr ⟨none, fun _ ↦ (if_neg ht).trans (if_pos hs)⟩
        · exact Or.inl fun _ ↦ (if_neg ht).trans (if_neg hs)
  | _ => exact Or.inl fun _ ↦ rfl

/-- The query knows the members of a live coalition, whatever was cleared. -/
theorem History.live_members (hh : History es s) {members : List VertexIndex}
    (hm : s.membersOf h = some members) : hyperedgeVertices es h = some members := by
  induction hh generalizing members with
  | nil => cases hm
  | @snoc es s e hh hl ih =>
      rw [hyperedgeVertices_snoc]
      rw [membersOf_effect hl] at hm
      split at hm
      · rcases membersAfter_cases e h with he | ⟨new, he⟩
        · rw [he] at hm ⊢
          exact ih hm
        · rw [he] at hm ⊢
          exact hm
      · cases hm

/-- An event about a coalition adds it, or finds it alive. -/
theorem membersAfter_ne_none (hl : e.Legal s) {old : Option (List VertexIndex)}
    (hm : e.membersAfter h old ≠ none) :
    old ≠ none ∨ e.addedHyperedge = some h ∨ s.membersOf h ≠ none := by
  have hlive : ∀ p, s.hyperedges h = some p → s.membersOf h ≠ none := by
    intro p hp
    rw [GraphState.membersOf, hp]
    exact Option.some_ne_none _
  have hite : ∀ (index : HyperedgeIndex) (new : Option (List VertexIndex)),
      (if h = index then new else old) ≠ none → old ≠ none ∨ h = index ∧ new ≠ none := by
    intro index new hne
    split at hne
    · rename_i hi
      exact Or.inr ⟨hi, hne⟩
    · exact Or.inl hne
  cases e with
  | hyperedgeAdded t index new w =>
      exact (hite index _ hm).imp_right fun hi ↦ Or.inl (by rw [hi.1]; rfl)
  | hyperedgeRemoved t index vs w =>
      exact (hite index _ hm).imp_right fun hi ↦ absurd rfl hi.2
  | hyperedgeVerticesUpdated t index _ new | hyperedgeReversed t index _ new
  | verticesContracted t index _ _ _ new =>
      obtain ⟨w, hw⟩ := hl
      exact (hite index _ hm).imp_right fun hi ↦ Or.inr (hlive _ (hi.1 ▸ hw))
  | hyperedgesJoined t target sources new =>
      obtain ⟨p, hp⟩ := hl
      by_cases ht : h = target
      · exact Or.inr (Or.inr (hlive p (ht ▸ hp)))
      · rw [TemporalEvent.membersAfter, if_neg ht] at hm
        split at hm
        · exact absurd rfl hm
        · exact Or.inl hm
  | _ => exact Or.inl hm

/-- A coalition that is alive, or that the query knows, has been added. -/
theorem History.added (hh : History es s) :
    s.membersOf h ≠ none ∨ hyperedgeVertices es h ≠ none →
      h ∈ es.filterMap TemporalEvent.addedHyperedge := by
  induction hh with
  | nil => exact fun hm ↦ hm.elim (fun hn ↦ absurd rfl hn) fun hn ↦ absurd rfl hn
  | @snoc es s e hh hl ih =>
      intro hm
      have hafter : ∃ old, (old ≠ none → h ∈ es.filterMap TemporalEvent.addedHyperedge) ∧
          e.membersAfter h old ≠ none := by
        rcases hm with hm | hm
        · rw [membersOf_effect hl] at hm
          split at hm
          · exact ⟨_, fun hne ↦ ih (Or.inl hne), hm⟩
          · exact absurd rfl hm
        · rw [hyperedgeVertices_snoc] at hm
          exact ⟨_, fun hne ↦ ih (Or.inr hne), hm⟩
      obtain ⟨old, hold, hm⟩ := hafter
      rw [List.filterMap_append, List.mem_append]
      rcases membersAfter_ne_none hl hm with hne | hadded | hlive
      · exact Or.inl (hold hne)
      · exact Or.inr (List.mem_filterMap.mpr ⟨e, List.mem_singleton_self e, hadded⟩)
      · exact Or.inl (ih (Or.inl hlive))

/-- One event changes membership as its moment says. -/
theorem belongs_concat (hh : History es s) (hl : e.Legal s) (hk : e.KeepsMembers s)
    (hfresh : e.addedHyperedge = some h → h ∉ es.filterMap TemporalEvent.addedHyperedge) :
    belongs (es ++ [e]) agent h = (e.moment agent h).presentAfter (belongs es agent h) := by
  have hbelongs : ∀ {members : List VertexIndex} {w : HE}, s.hyperedges h = some (members, w) →
      belongs es agent h = decide (agent ∈ members) := by
    intro members w hw
    rw [belongs, hh.live_members (by rw [GraphState.membersOf, hw]; rfl), Option.any_some]
  rw [belongs, hyperedgeVertices_snoc]
  cases e with
  | hyperedgeAdded t index new w =>
      by_cases hi : h = index
      · have hunknown : hyperedgeVertices es h = none := by
          by_contra hne
          exact hfresh (by rw [hi]; rfl) (hh.added (Or.inr hne))
        simp [TemporalEvent.membersAfter, TemporalEvent.moment, Moment.presentAfter, hi, belongs,
          hi ▸ hunknown]
      · simp [TemporalEvent.membersAfter, TemporalEvent.moment, Moment.presentAfter, hi,
          Ne.symm hi, belongs]
  | hyperedgeRemoved t index vs w =>
      by_cases hi : h = index
      · simp [TemporalEvent.membersAfter, TemporalEvent.moment, Moment.presentAfter, hi]
      · simp [TemporalEvent.membersAfter, TemporalEvent.moment, Moment.presentAfter, hi,
          Ne.symm hi, belongs]
  | hyperedgeVerticesUpdated t index old new | verticesContracted t index _ _ old new =>
      by_cases hi : h = index
      · obtain ⟨w, hw⟩ := hl
        subst hi
        rw [hbelongs hw]
        by_cases hold : agent ∈ old <;> by_cases hnew : agent ∈ new <;>
          simp [TemporalEvent.membersAfter, TemporalEvent.moment, Moment.presentAfter, hold, hnew]
      · simp [TemporalEvent.membersAfter, TemporalEvent.moment, Moment.presentAfter, hi,
          Ne.symm hi, belongs]
  | hyperedgeReversed t index old new =>
      by_cases hi : h = index
      · obtain ⟨w, hw⟩ := hl
        subst hi
        rw [hbelongs hw]
        simp [TemporalEvent.membersAfter, TemporalEvent.moment, Moment.presentAfter, hk agent]
      · simp [TemporalEvent.membersAfter, TemporalEvent.moment, Moment.presentAfter, hi, belongs]
  | hyperedgesJoined t target sources new =>
      by_cases ht : h = target
      · obtain ⟨⟨members, w⟩, hp⟩ := hl
        subst ht
        rw [hbelongs hp]
        have hkept := hk members (by rw [GraphState.membersOf, hp]; rfl) agent
        by_cases hold : agent ∈ members <;> by_cases hnew : agent ∈ new <;>
          by_cases hs : h ∈ sources <;>
          simp_all [TemporalEvent.membersAfter, TemporalEvent.moment, Moment.presentAfter]
      · by_cases hs : h ∈ sources <;>
          simp [TemporalEvent.membersAfter, TemporalEvent.moment, Moment.presentAfter, ht,
            Ne.symm ht, hs, belongs]
  | _ => simp [TemporalEvent.membersAfter, TemporalEvent.moment, Moment.presentAfter, belongs]

end Membership

/-! ## From one log to the other reading of it -/

section Logs

variable {es : List (TemporalEvent V HE)} {s : GraphState V HE}
variable {agent : VertexIndex} {h : HyperedgeIndex}

/-- The history of an agent has an entry for a coalition whose range contains an instant. -/
def Listed (events : EventLog V HE) (agent : VertexIndex) (h : HyperedgeIndex) (t : Timestamp) :
    Prop :=
  ∃ range, (h, range) ∈ agentCoalitionHistory events agent ∧ range.contains t = true

/-- The ranges that are over have two ends. -/
def CoalitionManager.Episodes.Bounded (x : Episodes) : Prop :=
  ∀ p ∈ x.history, ∃ a b, p.2 = ⟨some a, some b⟩

theorem CoalitionManager.Episodes.Bounded.remove {x : Episodes} (hx : x.Bounded)
    (index : HyperedgeIndex) (t : Timestamp) : (x.remove index t).Bounded := by
  unfold Episodes.remove
  split
  · intro p hp
    rcases List.mem_append.mp hp with hp | hp
    · exact hx p hp
    · rw [List.mem_singleton.mp hp]
      exact ⟨_, _, rfl⟩
  · exact hx

theorem CoalitionManager.Episodes.Bounded.replace {x : Episodes} (hx : x.Bounded)
    (index : HyperedgeIndex) (t : Timestamp) (old new : List VertexIndex) :
    (x.replace agent index t old new).Bounded := by
  unfold Episodes.replace
  split
  · exact hx
  · exact hx.remove index t
  · exact hx

theorem CoalitionManager.Episodes.Bounded.step {x : Episodes} (hx : x.Bounded)
    (e : TemporalEvent V HE) : (x.step agent e).Bounded := by
  cases e with
  | hyperedgeAdded t index vs w =>
      change (if agent ∈ vs then x.insert index t else x).Bounded
      split <;> exact hx
  | hyperedgeRemoved t index vs w => exact hx.remove index t
  | hyperedgeVerticesUpdated t index old new => exact hx.replace index t old new
  | verticesContracted t index vs v old new => exact hx.replace index t old new
  | hyperedgesJoined t target sources new =>
      have hall : ∀ (sources : List HyperedgeIndex) (x : Episodes), x.Bounded →
          (sources.foldl (fun x source ↦ x.remove source t) x).Bounded := by
        intro sources
        induction sources with
        | nil => exact fun _ hx ↦ hx
        | cons source sources ih => exact fun x hx ↦ ih _ (hx.remove source t)
      change (if agent ∈ new then Episodes.insert _ target t else _).Bounded
      split <;> exact hall sources x hx
  | _ => exact hx

theorem bounded_ofEvents (es : List (TemporalEvent V HE)) :
    (Episodes.ofEvents agent es).Bounded := by
  induction es using List.reverseRecOn with
  | nil => exact fun p hp ↦ nomatch hp
  | append_singleton es e ih =>
      rw [Episodes.ofEvents, List.foldl_append]
      exact ih.step e

/-- The history has the spells of the moments. -/
theorem listed_iff (events : EventLog V HE) (t : Timestamp) : Listed events agent h t ↔
    (Spells.recorded (events.events.map (TemporalEvent.moment agent h))).Covers t := by
  have hbounded : (Episodes.ofEvents agent events.events).Bounded := bounded_ofEvents _
  rw [← spells_ofEvents]
  constructor
  · rintro ⟨range, hmem, hc⟩
    rcases List.mem_append.mp hmem with hmem | hmem
    · obtain ⟨a, b, hab⟩ := hbounded _ hmem
      cases hab
      refine Or.inl ⟨(a, b), List.mem_filterMap.mpr ⟨_, hmem, if_pos rfl⟩, ?_⟩
      simpa [TimeRange.contains] using hc
    · obtain ⟨⟨index, start⟩, hstart, he⟩ := List.mem_map.mp hmem
      cases he
      refine Or.inr ⟨start, Std.TreeMap.mem_toList_iff_getElem?_eq_some.mp hstart, ?_⟩
      simpa [TimeRange.contains] using hc
  · rintro (⟨⟨a, b⟩, hmem, hle, hlt⟩ | ⟨start, hstart, hle⟩)
    · obtain ⟨⟨index, range⟩, hhist, he⟩ := List.mem_filterMap.mp hmem
      obtain ⟨a', b', hab⟩ := hbounded _ hhist
      cases hab
      change (if index = h then _ else none) = _ at he
      by_cases hi : index = h
      · rw [if_pos hi] at he
        cases he
        cases hi
        refine ⟨_, List.mem_append_left _ hhist, ?_⟩
        simpa [TimeRange.contains] using ⟨hle, hlt⟩
      · rw [if_neg hi] at he
        cases he
    · refine ⟨⟨some start, none⟩, List.mem_append_right _ (List.mem_map.mpr
        ⟨(h, start), Std.TreeMap.mem_toList_iff_getElem?_eq_some.mpr hstart, rfl⟩), ?_⟩
      simpa [TimeRange.contains] using hle

/-- A history whose events keep the members they should, and that adds nothing twice. -/
structure Plain (es : List (TemporalEvent V HE)) : Prop where
  keeps : ∀ fs e gs s₀, es = fs ++ e :: gs → History fs s₀ → e.KeepsMembers s₀
  fresh : (es.filterMap TemporalEvent.addedHyperedge).Nodup

theorem Plain.of_append {fs : List (TemporalEvent V HE)} (hp : Plain (es ++ fs)) : Plain es where
  keeps fs' e gs s₀ hs := hp.keeps fs' e (gs ++ fs) s₀ (by rw [hs]; simp)
  fresh := by
    have := hp.fresh
    rw [List.filterMap_append] at this
    exact this.of_append_left

theorem present_moments (hh : History es s) (hp : Plain es) :
    Moment.present (es.map (TemporalEvent.moment agent h)) = belongs es agent h := by
  induction hh with
  | nil => rfl
  | @snoc es s e hh hl ih =>
      rw [List.map_append, List.map_singleton, Moment.present_concat, ih hp.of_append]
      refine (belongs_concat hh hl (hp.keeps es e [] s rfl hh) fun hadded ↦ ?_).symm
      have hnodup := hp.fresh
      rw [List.filterMap_append] at hnodup
      refine fun hm ↦ List.disjoint_of_nodup_append hnodup hm ?_
      exact List.mem_filterMap.mpr ⟨e, List.mem_singleton_self e, hadded⟩

/-- The query at an instant reads the moments up to it. -/
theorem Coherent.wasMemberAt_eq [Hypergraph G V HE E] {value : TemporalHypergraph G V HE}
    (hc : Coherent value) (hp : Plain value.events.events) (t : Timestamp) :
    wasMemberAt value.events agent h t =
      Moment.presentAt (value.events.events.map (TemporalEvent.moment agent h)) t := by
  have hs := hc.stamped.splitsAt_take t
  obtain ⟨fs, hfs, _⟩ := hs.split
  have hhist := hc.history
  rw [hfs] at hhist hp
  obtain ⟨s₀, h₀⟩ := hhist.of_append
  rw [hs.presentAt_eq (TemporalEvent.moment agent h) fun _ ↦ rfl, present_moments h₀ hp.of_append,
    wasMemberAt, coalitionMembersAt, hs.hyperedgeVerticesAt_eq]
  rfl

end Logs

/-! ## Runs -/

section Runs

variable [Hypergraph G V HE E] {agent : VertexIndex} {h : HyperedgeIndex}

/-- No merge of a run that succeeds has a coalition as its target, without repeating it, while
the agent belongs to it. -/
def MergesFindAbsent (agent : VertexIndex) (h : HyperedgeIndex)
    (self : TemporalHypergraph G V HE) (ops : List (Op V HE E)) : Prop :=
  ∀ ops₁ indices ops₂ mid, ops = ops₁ ++ .mutate (mergeCoalitions indices) :: ops₂ →
    run ops₁ self = some mid → mid.poisoned = false →
    (∃ target graph, joinHyperedges indices mid.graph = .ok target graph) →
    indices.head? = some h → h ∉ indices.tail →
    ∀ members, getHyperedgeVertices h mid.graph = .ok members → agent ∉ members

variable [LawfulHypergraph G]

/-- What a successful merge has done. -/
theorem merge_eq_ok {indices : List HyperedgeIndex} {g g' : G}
    {finish : Timestamp → TemporalEvent V HE × Unit} :
    (TemporalHypergraph.joinHyperedges indices : Mutation G V HE E Unit) g = .ok finish g' ↔
      ∃ target new, joinHyperedges indices g = .ok target g' ∧ indices.head? = some target ∧
        getHyperedgeVertices target g' = .ok new ∧
        finish = fun t ↦ (.hyperedgesJoined t target indices.tail new, ()) := by
  constructor
  · intro hm
    obtain ⟨_, hj, rfl⟩ := mutation_eq_ok.mp hm
    obtain ⟨target, g₁, hw, hk⟩ := bind_write_eq_ok.mp hj
    obtain ⟨sources, hs, hk⟩ := bind_pureTry_eq_ok.mp hk
    obtain ⟨new, hn, hp⟩ := bind_read_eq_ok.mp hk
    obtain ⟨rfl, rfl⟩ := Fallible.pure_eq_ok.mp hp
    exact ⟨target, new, hw, (LawfulHypergraph.joinHyperedges_ok indices g g₁ target hw).1, hn,
      by rw [sliceFromOne_ok hs]⟩
  · rintro ⟨target, new, hw, hhead, hn, rfl⟩
    obtain ⟨hlen, -⟩ := AtomicHypergraph.joinHyperedges_readable indices g target g' hw
    have hslice : (TemporalHypergraph.sliceFromOne indices : Except (Fault E) _) =
        .ok indices.tail := by
      rw [TemporalHypergraph.sliceFromOne, if_pos (Nat.le_of_lt hlen), List.drop_one]
    exact mutation_eq_ok.mpr ⟨(target, indices.tail, new), bind_write_eq_ok.mpr ⟨target, g', hw,
      bind_pureTry_eq_ok.mpr ⟨_, hslice, bind_read_eq_ok.mpr ⟨new, hn, rfl⟩⟩⟩, rfl⟩

/-- An operation that records an event is a snapshot, or a call whose job succeeded. -/
theorem call_of_records {op : Op V HE E} {mid : TemporalHypergraph G V HE}
    {e : TemporalEvent V HE} (hr : Records mid e (op.apply mid)) :
    (∃ t id, e = .snapshotMarker t id) ∨ ∃ (call : Call V HE E) (graph : G)
      (finish : Timestamp → TemporalEvent V HE × call.Reply), op = .mutate call ∧
        mid.poisoned = false ∧ (call.mutation : Mutation G V HE E call.Reply) mid.graph =
          .ok finish graph ∧ e = (finish mid.clock.current).1 := by
  have hlast : ∀ e', (op.apply mid).events = mid.events.append e' → e = e' := by
    intro e' he
    have := congrArg EventLog.events (hr.events.symm.trans he)
    rw [EventLog.events_append, EventLog.events_append] at this
    exact (List.cons.inj (List.append_cancel_left this)).1
  cases op with
  | createSnapshot => exact Or.inl ⟨_, _, hlast _ rfl⟩
  | mutate call =>
      cases hm : TemporalHypergraph.mutate call.mutation mid with
      | ok value after =>
          obtain ⟨hp, finish, graph, hj, _, rfl⟩ := TemporalHypergraph.mutate_eq_ok.mp hm
          exact Or.inr ⟨call, graph, finish, rfl, hp, hj,
            hlast _ (by rw [apply_recorded hp hj]; rfl)⟩
      | error fault after =>
          have happly : (Op.mutate call).apply mid = after := congrArg Fallible.finalState hm
          rw [happly] at hr
          exact absurd hr (failed_of_error hm).not_records

end Runs

section Runs

variable [Hypergraph G V HE E] [SteadyHypergraph G] {agent : VertexIndex} {h : HyperedgeIndex}

/-- The event of a successful call keeps the members it should. -/
theorem Call.keepsMembers_finish (call : Call V HE E) {g g' : G}
    {finish : Timestamp → TemporalEvent V HE × call.Reply}
    (hm : (call.mutation : Mutation G V HE E call.Reply) g = .ok finish g') (t : Timestamp) :
    (finish t).1.KeepsMembers (state g) := by
  cases call with
  | reverseHyperedge index =>
      obtain ⟨_, hj, rfl⟩ := mutation_eq_ok.mp hm
      obtain ⟨old, hr, hk⟩ := bind_read_eq_ok.mp hj
      obtain ⟨_, g₁, hw, hk⟩ := bind_write_eq_ok.mp hk
      obtain ⟨new, hn, hp⟩ := bind_read_eq_ok.mp hk
      obtain ⟨rfl, rfl⟩ := Fallible.pure_eq_ok.mp hp
      exact SteadyHypergraph.reverseHyperedge_members index g g₁ old new hw hr hn
  | joinHyperedges indices =>
      obtain ⟨target, new, hw, _, hn, rfl⟩ := merge_eq_ok.mp hm
      intro old hold
      exact SteadyHypergraph.joinHyperedges_members indices g g' target old new hw
        (membersOf_eq_some.mp hold) hn
  | _ => obtain ⟨output, _, rfl⟩ := mutation_eq_ok.mp hm; trivial

/-- A spell that is started while another one goes on is started by a merge. -/
theorem merge_of_restart {es : List (TemporalEvent V HE)} {s : GraphState V HE}
    {e : TemporalEvent V HE} (hh : History es s) (hl : e.Legal s)
    (hfresh : e.addedHyperedge = some h → h ∉ es.filterMap TemporalEvent.addedHyperedge)
    (hstarts : (e.moment agent h).starts = true) (hbelongs : belongs es agent h = true) :
    ∃ t sources new, e = .hyperedgesJoined t h sources new := by
  have hold : ∀ {members : List VertexIndex} {w : HE}, s.hyperedges h = some (members, w) →
      agent ∈ members := by
    intro members w hw
    rw [belongs, hh.live_members (by rw [GraphState.membersOf, hw]; rfl), Option.any_some,
      decide_eq_true_eq] at hbelongs
    exact hbelongs
  cases e with
  | hyperedgeAdded t index new w =>
      obtain ⟨rfl, _⟩ := of_decide_eq_true hstarts
      refine absurd (hh.added (Or.inr fun hn ↦ ?_)) (hfresh rfl)
      rw [belongs, hn] at hbelongs
      cases hbelongs
  | hyperedgeVerticesUpdated t index old new | verticesContracted t index _ _ old new =>
      obtain ⟨rfl, habsent, _⟩ := of_decide_eq_true hstarts
      obtain ⟨w, hw⟩ := hl
      exact absurd (hold hw) habsent
  | hyperedgesJoined t target sources new =>
      obtain ⟨rfl, _⟩ := of_decide_eq_true hstarts
      exact ⟨t, sources, new, rfl⟩
  | _ => cases hstarts

/-- The log of a run is plain, if the graph hands out every hyperedge once. -/
theorem plain_of_run {tap : Option (Channel (TemporalEvent V HE))} {ops : List (Op V HE E)}
    {fin : TemporalHypergraph G V HE} (hrun : run ops (start tap) = some fin)
    (hfresh : (fin.events.events.filterMap TemporalEvent.addedHyperedge).Nodup) :
    Plain fin.events.events where
  fresh := hfresh
  keeps fs e gs s₀ hs h₀ := by
    obtain ⟨ops₁, op, ops₂, mid, _, hmid, hfs, hrec, _⟩ := run_fresh_event hrun hs
    have hstate : state mid.graph = s₀ :=
      h₀.unique (by rw [← hfs]; exact ((coherent_start tap).run hmid).history)
    rw [← hstate]
    rcases call_of_records hrec with ⟨t, id, rfl⟩ | ⟨call, graph, finish, _, _, hj, rfl⟩
    · trivial
    · exact call.keepsMembers_finish hj _

section Restarts

variable {tap : Option (Channel (TemporalEvent V HE))} {ops : List (Op V HE E)}
  {fin : TemporalHypergraph G V HE} {agent : VertexIndex} {h : HyperedgeIndex}

/-- A merge into a coalition starts a spell of an agent that belongs to it while another one goes
on. -/
theorem mergesFindAbsent_of_not_restarts (hrun : run ops (start tap) = some fin)
    (hplain : Plain fin.events.events)
    (hn : ¬ Moment.Restarts (fin.events.events.map (TemporalEvent.moment agent h))) :
    MergesFindAbsent agent h (start tap : TemporalHypergraph G V HE) ops := by
  intro ops₁ indices ops₂ mid hops hmid hp ⟨target, graph, hjoin⟩ hhead htail members hmem hin
  obtain ⟨hhead', -⟩ := LawfulHypergraph.joinHyperedges_ok indices _ graph target hjoin
  cases hhead.symm.trans hhead'
  obtain ⟨-, new, hnew⟩ := AtomicHypergraph.joinHyperedges_readable indices _ _ graph hjoin
  have hj := merge_eq_ok.mpr ⟨h, new, hjoin, hhead, hnew, rfl⟩
  have happly : (Op.mutate (mergeCoalitions indices)).apply mid = _ := apply_recorded hp hj
  obtain ⟨gs, hgs⟩ := run_events (run_after (hops ▸ hrun) hmid)
  rw [happly, TemporalHypergraph.recorded_events, EventLog.events_append,
    List.append_assoc] at hgs
  have hmidcoh := (coherent_start tap).run hmid
  refine hn ⟨mid.events.events.map _, _, gs.map _, by rw [hgs, List.map_append]; rfl, ?_, ?_, ?_⟩
  · have hkept : agent ∈ new :=
      SteadyHypergraph.joinHyperedges_members indices _ graph h members new hjoin hmem hnew _ hin
    exact decide_eq_true ⟨rfl, hkept⟩
  · exact decide_eq_false htail
  · have hprefix : Plain mid.events.events := by
      rw [hgs] at hplain
      exact hplain.of_append
    rw [present_moments hmidcoh.history hprefix, belongs,
      hmidcoh.history.live_members (membersOf_eq_some.mpr hmem)]
    exact decide_eq_true hin

/-- Nothing but such a merge starts a spell while another one goes on. -/
theorem not_restarts_of_mergesFindAbsent (hrun : run ops (start tap) = some fin)
    (hplain : Plain fin.events.events)
    (hfind : MergesFindAbsent agent h (start tap : TemporalHypergraph G V HE) ops) :
    ¬ Moment.Restarts (fin.events.events.map (TemporalEvent.moment agent h)) := by
  rintro ⟨fs, m, gs, hs, hstarts, hstops, hpresent⟩
  obtain ⟨es₁, es₂, hes, rfl, hes₂⟩ := List.map_eq_append_iff.mp hs
  obtain ⟨e, es₃, rfl, rfl, rfl⟩ := List.map_eq_cons_iff.mp hes₂
  obtain ⟨ops₁, op, ops₂, mid, hops, hmid, rfl, hrec, _⟩ := run_fresh_event hrun hes
  have hmidcoh := (coherent_start tap).run hmid
  have hprefix : Plain mid.events.events := by
    rw [hes] at hplain
    exact hplain.of_append
  rw [present_moments hmidcoh.history hprefix] at hpresent
  have hadds : e.addedHyperedge = some h →
      h ∉ mid.events.events.filterMap TemporalEvent.addedHyperedge := by
    intro hadded hm
    have hnodup := hplain.fresh
    rw [hes, List.filterMap_append] at hnodup
    refine List.disjoint_of_nodup_append hnodup hm ?_
    exact List.mem_filterMap.mpr ⟨e, List.mem_cons_self, hadded⟩
  obtain ⟨t, sources, new, rfl⟩ :=
    merge_of_restart hmidcoh.history hrec.legal hadds hstarts hpresent
  rcases call_of_records hrec with ⟨_, _, he⟩ | ⟨call, graph, finish, rfl, hp, hj, he⟩
  · cases he
  · cases call with
    | joinHyperedges indices =>
        obtain ⟨target, new', hjoin, hhead, _, rfl⟩ := merge_eq_ok.mp hj
        cases he
        obtain ⟨⟨members, w⟩, hw⟩ := hrec.legal
        have hmem : (state mid.graph).membersOf h = some members := by
          rw [GraphState.membersOf, hw]
          rfl
        refine hfind ops₁ indices ops₂ mid hops hmid hp ⟨_, graph, hjoin⟩ hhead
          (of_decide_eq_false hstops) members (membersOf_eq_some.mp hmem) ?_
        rw [belongs, hmidcoh.history.live_members hmem] at hpresent
        exact of_decide_eq_true hpresent
    | _ =>
        obtain ⟨output, _, rfl⟩ := mutation_eq_ok.mp hj
        cases he

end Restarts

/-- **When the history agrees with the query.**  In every run over a graph that hands out every
hyperedge once, the history of an agent has an entry for a coalition whose range contains an
instant exactly when the agent was a member of it at that instant, for all instants, if and
only if no merge that succeeds has the coalition as its target, without repeating it, while
the agent belongs to it. -/
theorem history_agrees_iff (tap : Option (Channel (TemporalEvent V HE)))
    (ops : List (Op V HE E)) (fin : TemporalHypergraph G V HE)
    (hrun : run ops (start tap) = some fin)
    (hfresh : (fin.events.events.filterMap TemporalEvent.addedHyperedge).Nodup)
    (agent : VertexIndex) (h : HyperedgeIndex) :
    (∀ t, (∃ range, (h, range) ∈ agentCoalitionHistory fin.events agent ∧
        range.contains t = true) ↔ wasMemberAt fin.events agent h t = true) ↔
      MergesFindAbsent agent h (start tap : TemporalHypergraph G V HE) ops := by
  have hcoh := (coherent_start tap).run hrun
  have hplain := plain_of_run hrun hfresh
  have hread : (∀ t, (∃ range, (h, range) ∈ agentCoalitionHistory fin.events agent ∧
      range.contains t = true) ↔ wasMemberAt fin.events agent h t = true) ↔
      ¬ Moment.Restarts (fin.events.events.map (TemporalEvent.moment agent h)) := by
    rw [← Spells.covers_iff_not_restarts
      (hcoh.stamped.moments_sorted (TemporalEvent.moment agent h) fun _ ↦ rfl)]
    refine forall_congr' fun t ↦ ?_
    rw [← listed_iff, hcoh.wasMemberAt_eq hplain]
    rfl
  rw [hread]
  constructor
  · exact mergesFindAbsent_of_not_restarts hrun hplain
  · exact not_restarts_of_mergesFindAbsent hrun hplain

end Runs

/-- The members that can be read are the members that are stored. -/
theorem members_eq {g : MapGraph V HE} {h : HyperedgeIndex} {members : List VertexIndex}
    (hm : getHyperedgeVertices h g = .ok members) : g.members h = members := by
  obtain ⟨p, hp⟩ := Option.isSome_iff_exists.mp (MapGraph.getHyperedgeVertices_ok.mp ⟨_, hm⟩)
  rw [MapGraph.getHyperedgeVertices_eq hp] at hm
  cases hm
  rw [MapGraph.members, hp]

/-- Maps lose nobody. -/
instance : SteadyHypergraph (MapGraph V HE) where
  reverseHyperedge_members h g g' old new hok hold hnew v := by
    obtain ⟨hlive, he⟩ := MapGraph.guarded_ok hok
    cases he
    obtain ⟨rfl, -⟩ := members_of_setMembers (MapGraph.state_setMembers g h _) hnew
    rw [List.mem_reverse, members_eq hold]
  joinHyperedges_members hs g g' t old new hok hold hnew v hv := by
    obtain ⟨hlive, he⟩ := MapGraph.guarded_ok hok
    obtain ⟨hlen, -⟩ := MapGraph.missing_eq_none hlive
    cases hs with
    | nil => cases hlen
    | cons target rest =>
        cases he
        obtain ⟨rfl, -⟩ := members_of_setMembers (MapGraph.state_setMembers _ target _) hnew
        refine List.mem_flatMap.mpr ⟨target, List.mem_cons_self, ?_⟩
        have hmem : g.members target = old := members_eq hold
        rw [hmem]
        exact hv

/-- Two agents form a coalition each, and the second is merged into the first. -/
def mergeOps : List (Op Nat Nat MapGraphError) :=
  [.mutate (addAgent 10), .mutate (addAgent 11), .mutate (formCoalition [0] 5),
    .mutate (formCoalition [1] 6), .mutate (mergeCoalitions [0, 1])]

/-- The history of the second agent, who joins the first coalition by the merge, agrees with the
query. -/
theorem history_agrees_on_a_newcomer :
    ∃ fin : TemporalHypergraph (MapGraph Nat Nat) Nat Nat,
      run mergeOps (start none) = some fin ∧
      ∀ t, (∃ range, (0, range) ∈ agentCoalitionHistory fin.events 1 ∧
        range.contains t = true) ↔ wasMemberAt fin.events 1 0 t = true := by
  have hrun : run mergeOps (start none : TemporalHypergraph (MapGraph Nat Nat) Nat Nat) =
    some (issue mergeOps (start none)) := rfl
  refine ⟨_, hrun, (history_agrees_iff none mergeOps _ hrun (by decide) 1 0).mpr ?_⟩
  intro ops₁ indices ops₂ mid hops hmid _ _ _ _ members hmem
  rcases ops₁ with _ | ⟨op₁, _ | ⟨op₂, _ | ⟨op₃, _ | ⟨op₄, _ | ⟨op₅, ops₁⟩⟩⟩⟩⟩
  · cases hops
  · cases hops
  · cases hops
  · cases hops
  · cases hops
    cases hmid
    cases hmem
    decide
  · simp [mergeOps] at hops

/-- The history of the first agent does not know that it belonged to its coalition before. -/
theorem history_forgets_a_merge :
    ∃ fin : TemporalHypergraph (MapGraph Nat Nat) Nat Nat,
      run mergeOps (start none) = some fin ∧
      agentCoalitionHistory fin.events 0 = [(0, ⟨some 4, none⟩)] ∧
      wasMemberAt fin.events 0 0 2 = true ∧
      ¬ ∃ range, (0, range) ∈ agentCoalitionHistory fin.events 0 ∧ range.contains 2 = true := by
  have hhist : agentCoalitionHistory (issue mergeOps
      (start none : TemporalHypergraph (MapGraph Nat Nat) Nat Nat)).events 0 =
        [(0, ⟨some 4, none⟩)] := by
    decide +kernel
  refine ⟨issue mergeOps (start none), rfl, hhist, by rfl, ?_⟩
  rw [hhist]
  rintro ⟨range, hmem, hc⟩
  cases List.mem_singleton.mp hmem
  cases hc

end Koalisi.Topology
