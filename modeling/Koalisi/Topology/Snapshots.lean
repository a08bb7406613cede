import Koalisi.Topology.Clones

/-!
# Snapshots of a value and its clones

A snapshot draws its id from the counter of its value, appends a marker to the log and
stores itself in the table of snapshots under the timestamp of the marker.  The log and
the table are shared, the counter and the clock are not: a clone has copies.  So two
values may draw the same id, and two snapshots may store themselves in the same place
(`clones_share_an_id`).

A value is *behind* once another one has drawn an id that it does not know of.  As long
as no id is drawn through a value that is behind, and no marker is stamped by a clock
that stands at the timestamp of an earlier marker, every snapshot has an id and a place
of its own (`snapshots_identified`).
-/

namespace Koalisi.Topology

open Koalisi.Lib Koalisi.Lib.Fallible

variable {G V HE E : Type}

namespace Shared

/-- All snapshots. -/
def listSnapshots (shared : Shared G V HE) : List (Timestamp × SnapshotId) :=
  shared.snapshots.toList.map fun (timestamp, snapshot) ↦ (timestamp, snapshot.id)

/-- A snapshot by its id. -/
def getSnapshot (shared : Shared G V HE) (id : SnapshotId) : Option Snapshot :=
  (shared.snapshots.toList.map Prod.snd).find? fun snapshot ↦ snapshot.id = id

end Shared

/-- A system, and what its snapshots have drawn. -/
structure Snapping (G V HE E : Type) where
  system : System G V HE E
  /-- For each task, the id it has drawn, if it is a snapshot. -/
  ids : List (Option SnapshotId)
  /-- For each value, whether an id has been drawn that it does not know of. -/
  behind : List Bool

namespace Snapping

/-- One value, and nothing started. -/
def ofValue (value : TemporalHypergraph G V HE) : Snapping G V HE E where
  system := .ofValue value
  ids := []
  behind := [false]

/-- How many ids have been drawn. -/
def drawn (s : Snapping G V HE E) : Nat := s.ids.countP Option.isSome

/-- The id that a snapshot of a value would draw. -/
def counterOf (s : Snapping G V HE E) (i : Nat) : Option SnapshotId :=
  s.system.values[i]?.map Own.snapshotCounter

/-- One action, if it is possible. -/
def act [Hypergraph G V HE E] (s : Snapping G V HE E) (action : System.Action V HE E) :
    Option (Snapping G V HE E) := do
  let system ← s.system.act action
  return match action with
    | .call _ _ => { s with system := system, ids := s.ids ++ [none] }
    | .createSnapshot i => {
        system := system
        ids := s.ids ++ [s.counterOf i]
        behind := s.behind.mapIdx fun j b ↦ b || j ≠ i }
    | .clone i => { s with system := system, behind := s.behind ++ [s.behind.getD i true] }
    | .advance _ => { s with system := system }

/-- A snapshot marker is at an index of the log. -/
def MarkedAt (events : EventLog V HE) (n : Nat) (t : Timestamp) (id : SnapshotId) : Prop :=
  events.events[n]? = some (.snapshotMarker t id)

/-- No snapshot marker of the log has the timestamp at which the clock of a value stands. -/
def clockUnmarked (s : Snapping G V HE E) (i : Nat) : Bool :=
  s.system.shared.events.events.all fun
    | .snapshotMarker timestamp _ => s.system.clockOf i != some timestamp
    | _ => true

/-- The id is not drawn through a value that is behind, and the marker is not stamped by a
clock that stands at the timestamp of an earlier one. -/
def inStep (s : Snapping G V HE E) : System.Action V HE E → Bool
  | .createSnapshot i => s.behind[i]? = some false && s.drawn < 2 ^ 64
  | .advance k =>
      match s.system.tasks[k]?, s.ids[k]? with
      | some (i, .finishing _), some (some _) => s.clockUnmarked i
      | _, _ => true
  | _ => true

/-- Actions one after the other, as long as each is in step. -/
def runInStep [Hypergraph G V HE E] (as : List (System.Action V HE E))
    (s : Snapping G V HE E) : Option (Snapping G V HE E) :=
  as.foldlM (fun s action ↦ if s.inStep action then s.act action else none) s

/-! ## Where a task can stand -/

/-- The id that a task has drawn for what it records. -/
def drawnFor : Work V HE E → Option SnapshotId
  | .mutation _ => none
  | .snapshot id => some id

/-- Where a task can stand that has drawn an id, or none. -/
def Stands (events : EventLog V HE) (snapshots : Std.TreeMap Timestamp Snapshot)
    (id : Option SnapshotId) : Stage V HE E → Prop
  | .waiting work => drawnFor work = id
  | .working work => drawnFor work = id
  | .finishing finish => match id with
      | none => ∀ t t' id, finish t ≠ .snapshotMarker t' id
      | some id => ∀ t, finish t = .snapshotMarker t id
  | .appending event => match id with
      | none => ∀ t id, event ≠ .snapshotMarker t id
      | some id => ∃ t, event = .snapshotMarker t id ∧ ∀ n id', ¬ MarkedAt events n t id'
  | .inserting snapshot => id = some snapshot.id ∧
      MarkedAt events snapshot.eventIndex snapshot.timestamp snapshot.id
  | .done => ∀ id', id = some id' → ∃ snapshot : Snapshot, snapshot.id = id' ∧
      snapshots[snapshot.timestamp]? = some snapshot ∧
      MarkedAt events snapshot.eventIndex snapshot.timestamp id'

/-- The event of the task is in the log. -/
def Appended : Stage V HE E → Prop
  | .inserting _ => True
  | .done => True
  | _ => False

section Stands

variable {events : EventLog V HE} {snapshots : Std.TreeMap Timestamp Snapshot}
variable {id : Option SnapshotId} {stage : Stage V HE E} {event : TemporalEvent V HE}

theorem MarkedAt.append {n : Nat} {t : Timestamp} {id : SnapshotId} (h : MarkedAt events n t id) :
    MarkedAt (events.append event) n t id := by
  obtain ⟨hn, -⟩ := List.getElem?_eq_some_iff.mp h
  rw [MarkedAt, EventLog.events_append, List.getElem?_append_left hn]
  exact h

/-- A marker in a longer log was there before, or is the new event. -/
theorem markedAt_append {n : Nat} {t : Timestamp} {id : SnapshotId}
    (h : MarkedAt (events.append event) n t id) :
    MarkedAt events n t id ∨ n = events.len ∧ event = .snapshotMarker t id := by
  rw [MarkedAt, EventLog.events_append, List.getElem?_append] at h
  split at h
  · exact Or.inl h
  · rename_i hn
    have hlt := (List.getElem?_eq_some_iff.mp h).1
    have heq : n = events.len := by
      rw [List.length_singleton] at hlt
      rw [EventLog.len]
      omega
    rw [heq, EventLog.len, Nat.sub_self] at h
    exact Or.inr ⟨heq, Option.some.inj h⟩

/-- A task that does not wait to append is not concerned by what is appended. -/
theorem Stands.append (h : Stands events snapshots id stage) (hs : stage.stamped = false) :
    Stands (events.append event) snapshots id stage := by
  cases stage with
  | appending event => cases hs
  | inserting snapshot => exact ⟨h.1, h.2.append⟩
  | done =>
      intro id' hid'
      obtain ⟨snapshot, hid, hstored, hmarked⟩ := h id' hid'
      exact ⟨snapshot, hid, hstored, hmarked.append⟩
  | _ => exact h

/-- A task that does not own the place of a snapshot is not concerned by its insertion. -/
theorem Stands.insert (h : Stands events snapshots id stage) {snapshot : Snapshot}
    (hne : ∀ id', id = some id' → ∀ n, ¬ MarkedAt events n snapshot.timestamp id') :
    Stands events (snapshots.insert snapshot.timestamp snapshot) id stage := by
  cases stage with
  | done =>
      intro id' hid'
      obtain ⟨other, hid, hstored, hmarked⟩ := h id' hid'
      refine ⟨other, hid, ?_, hmarked⟩
      rw [Std.TreeMap.getElem?_insert, if_neg]
      · exact hstored
      · intro heq
        rw [← Std.LawfulEqCmp.eq_of_compare heq] at hmarked
        exact hne id' hid' _ hmarked
  | _ => exact h

end Stands

/-! ## Every snapshot has an id and a place of its own -/

/-- What is kept as long as the actions are in step. -/
structure Kept (s : Snapping G V HE E) : Prop where
  locked : s.system.Locked
  ids : s.ids.length = s.system.tasks.length
  behind : s.behind.length = s.system.values.length
  stands : ∀ (k i : Nat) (stage : Stage V HE E), s.system.tasks[k]? = some (i, stage) →
    ∃ id, s.ids[k]? = some id ∧ Stands s.system.shared.events s.system.shared.snapshots id stage
  owner : ∀ (n : Nat) (t : Timestamp) (id : SnapshotId), MarkedAt s.system.shared.events n t id →
    ∃ (k i : Nat) (stage : Stage V HE E), s.ids[k]? = some (some id) ∧
      s.system.tasks[k]? = some (i, stage) ∧ Appended stage
  times : ∀ (n n' : Nat) (t : Timestamp) (id id' : SnapshotId),
    MarkedAt s.system.shared.events n t id → MarkedAt s.system.shared.events n' t id' → n = n'
  unique : ∀ (n n' : Nat) (t t' : Timestamp) (id : SnapshotId),
    MarkedAt s.system.shared.events n t id → MarkedAt s.system.shared.events n' t' id → n = n'
  table : ∀ (t : Timestamp) (snapshot : Snapshot),
    s.system.shared.snapshots[t]? = some snapshot → snapshot.timestamp = t ∧
      MarkedAt s.system.shared.events snapshot.eventIndex t snapshot.id
  below : ∀ (k : Nat) (id : SnapshotId), s.ids[k]? = some (some id) → id.val < s.drawn
  distinct : ∀ (k k' : Nat) (id : SnapshotId), s.ids[k]? = some (some id) →
    s.ids[k']? = some (some id) → k = k'
  counters : ∀ (i : Nat) (id : SnapshotId), s.counterOf i = some id →
    s.behind[i]? = some false → id.val = s.drawn % 2 ^ 64

section Steps

variable {s s' : Snapping G V HE E} {k i : Nat} {stage stage' : Stage V HE E}
variable {sys : System G V HE E}

/-- A task moves on; what it does to the log and the table must keep the other tasks, and the
markers and the entries apart. -/
theorem Kept.moves (h : Kept s) (hl : sys.Locked)
    (htask : s.system.tasks[k]? = some (i, stage))
    (htasks : sys.tasks = s.system.tasks.set k (i, stage'))
    (hlen : sys.values.length = s.system.values.length)
    (hcounters : ∀ j, sys.values[j]?.map Own.snapshotCounter = s.counterOf j)
    (hself : ∀ id, s.ids[k]? = some id →
      Stands s.system.shared.events s.system.shared.snapshots id stage →
      Stands sys.shared.events sys.shared.snapshots id stage')
    (hothers : ∀ k' i' st id, k' ≠ k → s.system.tasks[k']? = some (i', st) →
      s.ids[k']? = some id →
      Stands s.system.shared.events s.system.shared.snapshots id st →
      Stands sys.shared.events sys.shared.snapshots id st)
    (happended : Appended stage → Appended stage')
    (howner : ∀ n t id, MarkedAt sys.shared.events n t id →
      MarkedAt s.system.shared.events n t id ∨ s.ids[k]? = some (some id) ∧ Appended stage')
    (htimes : ∀ (n n' : Nat) (t : Timestamp) (id id' : SnapshotId),
      MarkedAt sys.shared.events n t id → MarkedAt sys.shared.events n' t id' → n = n')
    (hunique : ∀ (n n' : Nat) (t t' : Timestamp) (id : SnapshotId),
      MarkedAt sys.shared.events n t id → MarkedAt sys.shared.events n' t' id → n = n')
    (htable : ∀ (t : Timestamp) (snapshot : Snapshot),
      sys.shared.snapshots[t]? = some snapshot → snapshot.timestamp = t ∧
        MarkedAt sys.shared.events snapshot.eventIndex t snapshot.id) :
    Kept { s with system := sys } := by
  have hget : ∀ k', sys.tasks[k']? = if k' = k then some (i, stage') else s.system.tasks[k']? := by
    intro k'
    rw [htasks]
    exact System.goto_tasks htask k'
  refine ⟨hl, ?_, ?_, fun k' i' st hst ↦ ?_, fun n t id hm ↦ ?_, htimes, hunique, htable, h.below,
    h.distinct, fun j id hj ↦ ?_⟩
  · rw [htasks, List.length_set]
    exact h.ids
  · rw [hlen]
    exact h.behind
  · rw [hget] at hst
    split at hst
    · rename_i hkk
      cases hst
      obtain ⟨id, hid, hstands⟩ := h.stands k i stage htask
      rw [hkk]
      exact ⟨id, hid, hself id hid hstands⟩
    · rename_i hkk
      obtain ⟨id, hid, hstands⟩ := h.stands k' i' st hst
      exact ⟨id, hid, hothers k' i' st id hkk hst hid hstands⟩
  · have hself' : s.ids[k]? = some (some id) → Appended stage' →
        ∃ (k i : Nat) (stage : Stage V HE E), s.ids[k]? = some (some id) ∧
          sys.tasks[k]? = some (i, stage) ∧ Appended stage :=
      fun hid happ ↦ ⟨k, i, stage', hid, by rw [hget, if_pos rfl], happ⟩
    rcases howner n t id hm with hm | ⟨hid, happ⟩
    · obtain ⟨k', i', st, hid, hst, happ⟩ := h.owner n t id hm
      by_cases hkk : k' = k
      · rw [hkk, htask] at hst
        cases hst
        exact hself' (hkk ▸ hid) (happended happ)
      · exact ⟨k', i', st, hid, by rw [hget, if_neg hkk]; exact hst, happ⟩
    · exact hself' hid happ
  · exact h.counters j id ((hcounters j).symm.trans hj)

/-- A task moves on without touching the log or the table. -/
theorem Kept.silent (h : Kept s) (hl : sys.Locked)
    (htask : s.system.tasks[k]? = some (i, stage))
    (htasks : sys.tasks = s.system.tasks.set k (i, stage'))
    (hlen : sys.values.length = s.system.values.length)
    (hcounters : ∀ j, sys.values[j]?.map Own.snapshotCounter = s.counterOf j)
    (hevents : sys.shared.events = s.system.shared.events)
    (hsnapshots : sys.shared.snapshots = s.system.shared.snapshots)
    (hself : ∀ id, s.ids[k]? = some id →
      Stands s.system.shared.events s.system.shared.snapshots id stage →
      Stands s.system.shared.events s.system.shared.snapshots id stage')
    (happended : Appended stage → Appended stage') : Kept { s with system := sys } := by
  refine h.moves hl htask htasks hlen hcounters ?_ ?_ happended ?_ ?_ ?_ ?_
  · rw [hevents, hsnapshots]
    exact hself
  · rw [hevents, hsnapshots]
    exact fun _ _ _ _ _ _ _ hstands ↦ hstands
  · rw [hevents]
    exact fun _ _ _ hm ↦ Or.inl hm
  · rw [hevents]
    exact h.times
  · rw [hevents]
    exact h.unique
  · rw [hevents, hsnapshots]
    exact h.table

/-- Writing back a value with the same counter changes no counter. -/
theorem counterOf_put {own : Own} (hown : s.system.values[i]? = some own)
    {value : TemporalHypergraph G V HE} (hc : value.snapshotCounter = own.snapshotCounter)
    (j : Nat) : (s.system.put i value).values[j]?.map Own.snapshotCounter = s.counterOf j := by
  obtain ⟨hi, -⟩ := List.getElem?_eq_some_iff.mp hown
  change (s.system.values.set i value.toOwn)[j]?.map _ = s.system.values[j]?.map _
  rw [List.getElem?_set]
  split
  · rename_i hij
    rw [← hij, hown, Option.map_some, Option.map_some, hc]
  · rfl

/-- A task appends its event. -/
theorem Kept.appends (h : Kept s) (hl : sys.Locked) {event : TemporalEvent V HE}
    (htask : s.system.tasks[k]? = some (i, .appending event))
    (htasks : sys.tasks =
      s.system.tasks.set k (i, System.afterAppend s.system.shared.events.len event))
    (hlen : sys.values.length = s.system.values.length)
    (hcounters : ∀ j, sys.values[j]?.map Own.snapshotCounter = s.counterOf j)
    (hevents : sys.shared.events = s.system.shared.events.append event)
    (hsnapshots : sys.shared.snapshots = s.system.shared.snapshots) :
    Kept { s with system := sys } := by
  obtain ⟨id, hid, hstands⟩ := h.stands k i _ htask
  -- the new marker, if it is one, is that of the task
  have hnew : ∀ t id', event = .snapshotMarker t id' → id = some id' ∧
      ∀ n id'', ¬ MarkedAt s.system.shared.events n t id'' := by
    intro t id' he
    cases id with
    | none => exact absurd he (hstands t id')
    | some id =>
        obtain ⟨t', he', hfresh⟩ := hstands
        rw [he'] at he
        cases he
        exact ⟨rfl, hfresh⟩
  have hnone : ∀ t id', event = .snapshotMarker t id' →
      ∀ n t', ¬ MarkedAt s.system.shared.events n t' id' := by
    intro t id' he n t' hm
    obtain ⟨k', i', st, hid', hst, happ⟩ := h.owner n t' id' hm
    rw [(hnew t id' he).1] at hid
    rw [h.distinct k' k id' hid' hid, htask] at hst
    cases hst
    exact happ
  refine h.moves hl htask htasks hlen hcounters (fun id' hid' _ ↦ ?_)
    (fun k' i' st id' hkk hst hid' hst' ↦ ?_) (fun happ ↦ happ.elim) (fun n t id' hm ↦ ?_)
    (fun n n' t id₁ id₂ hm hm' ↦ ?_) (fun n n' t t' id' hm hm' ↦ ?_) (fun t snapshot ht ↦ ?_)
  · cases hid.symm.trans hid'
    rw [hevents, hsnapshots]
    cases id with
    | none =>
        cases event with
        | snapshotMarker t id' => exact absurd rfl (hstands t id')
        | _ => exact fun id' hid' ↦ nomatch hid'
    | some id =>
        obtain ⟨t, rfl, -⟩ := hstands
        refine ⟨rfl, ?_⟩
        change MarkedAt _ s.system.shared.events.len t id
        rw [MarkedAt, EventLog.events_append, EventLog.len, List.getElem?_concat_length]
  · rw [hevents, hsnapshots]
    refine hst'.append ?_
    -- only the holder of the lock is stamped
    cases hstamp : st.stamped with
    | false => rfl
    | true =>
        have hholds : st.holds = true := by
          cases st <;> first | rfl | cases hstamp
        exact absurd (h.locked.eq_of_holds htask rfl hst hholds) hkk
  · rw [hevents] at hm
    rcases markedAt_append hm with hm | ⟨-, he⟩
    · exact Or.inl hm
    · rw [hid, (hnew t id' he).1, he]
      exact Or.inr ⟨rfl, trivial⟩
  · rw [hevents] at hm hm'
    rcases markedAt_append hm with hm | ⟨hn, he⟩ <;>
      rcases markedAt_append hm' with hm' | ⟨hn', he'⟩
    · exact h.times n n' t id₁ id₂ hm hm'
    · exact absurd hm ((hnew t id₂ he').2 n id₁)
    · exact absurd hm' ((hnew t id₁ he).2 n' id₂)
    · rw [hn, hn']
  · rw [hevents] at hm hm'
    rcases markedAt_append hm with hm | ⟨hn, he⟩ <;>
      rcases markedAt_append hm' with hm' | ⟨hn', he'⟩
    · exact h.unique n n' t t' id' hm hm'
    · exact absurd hm (hnone t' id' he' n t)
    · exact absurd hm' (hnone t id' he n' t')
    · rw [hn, hn']
  · rw [hsnapshots] at ht
    obtain ⟨htime, hm⟩ := h.table t snapshot ht
    rw [hevents]
    exact ⟨htime, hm.append⟩

/-- A snapshot is stored. -/
theorem Kept.inserts (h : Kept s) (hl : sys.Locked) {snapshot : Snapshot}
    (htask : s.system.tasks[k]? = some (i, .inserting snapshot))
    (htasks : sys.tasks = s.system.tasks.set k (i, .done))
    (hlen : sys.values.length = s.system.values.length)
    (hcounters : ∀ j, sys.values[j]?.map Own.snapshotCounter = s.counterOf j)
    (hevents : sys.shared.events = s.system.shared.events)
    (hsnapshots : sys.shared.snapshots =
      s.system.shared.snapshots.insert snapshot.timestamp snapshot) :
    Kept { s with system := sys } := by
  obtain ⟨id, hid, hstands⟩ := h.stands k i _ htask
  obtain ⟨rfl, hmarked⟩ := hstands
  refine h.moves hl htask htasks hlen hcounters (fun id' hid' _ ↦ ?_)
    (fun k' i' st id' hkk hst hid' hst' ↦ ?_) (fun happ ↦ happ) (fun n t id' hm ↦ ?_) ?_ ?_
    (fun t other ht ↦ ?_)
  · cases hid.symm.trans hid'
    rw [hevents, hsnapshots]
    intro id' hid'
    cases hid'
    exact ⟨snapshot, rfl, Std.TreeMap.getElem?_insert_self, hmarked⟩
  · rw [hevents, hsnapshots]
    refine hst'.insert fun id'' hid'' n hm ↦ hkk ?_
    -- markers of one timestamp are the same marker, which has one id
    have hn := h.times _ _ _ _ _ hm hmarked
    rw [hn, MarkedAt, hmarked] at hm
    cases hm
    rw [hid''] at hid'
    exact h.distinct k' k _ hid' hid
  · rw [hevents] at hm
    exact Or.inl hm
  · rw [hevents]
    exact h.times
  · rw [hevents]
    exact h.unique
  · rw [hsnapshots, Std.TreeMap.getElem?_insert] at ht
    rw [hevents]
    split at ht
    · rename_i heq
      cases ht
      rw [← Std.LawfulEqCmp.eq_of_compare heq]
      exact ⟨rfl, hmarked⟩
    · exact h.table t other ht

/-- A value and what a job made of it agree on all but the graph. -/
theorem runJob_shared {own : Own} {T : Type} {job : Job G E T} {value : TemporalHypergraph G V HE}
    (h : finalState (TemporalHypergraph.runJob job ⟨s.system.shared, own⟩) = value) :
    value.events = s.system.shared.events ∧ value.snapshots = s.system.shared.snapshots ∧
      value.snapshotCounter = own.snapshotCounter := by
  obtain ⟨graph, poisoned, hframe⟩ := System.runJob_only job
    (⟨s.system.shared, own⟩ : TemporalHypergraph G V HE)
  rw [hframe] at h
  rw [← h]
  exact ⟨rfl, rfl, rfl⟩

/-- A task is started; if it draws an id, then the next one. -/
theorem Kept.starts (h : Kept s) (hl : s'.system.Locked)
    (hshared : s'.system.shared = s.system.shared) {work : Work V HE E}
    (htasks : s'.system.tasks = s.system.tasks ++ [(i, .waiting work)])
    {id : Option SnapshotId} (hids : s'.ids = s.ids ++ [id])
    (hstands : Stands s.system.shared.events s.system.shared.snapshots id
      (.waiting work : Stage V HE E))
    (hnext : ∀ id', id = some id' → id'.val = s.drawn)
    (hbehind : s'.behind.length = s'.system.values.length)
    (hcounters : ∀ (j : Nat) (id : SnapshotId), s'.counterOf j = some id →
      s'.behind[j]? = some false → id.val = s'.drawn % 2 ^ 64) : Kept s' := by
  have hold : ∀ (k : Nat) (id' : SnapshotId), s'.ids[k]? = some (some id') →
      s.ids[k]? = some (some id') ∨ k = s.ids.length ∧ id = some id' := by
    intro k id' hk
    rw [hids, List.getElem?_append] at hk
    split at hk
    · exact Or.inl hk
    · rename_i hlt
      have hlen := (List.getElem?_eq_some_iff.mp hk).1
      rw [List.length_singleton] at hlen
      have hkk : k = s.ids.length := by omega
      rw [hkk, Nat.sub_self] at hk
      exact Or.inr ⟨hkk, Option.some.inj hk⟩
  have hkeep : ∀ (k : Nat) (id' : Option SnapshotId), s.ids[k]? = some id' →
      s'.ids[k]? = some id' := by
    intro k id' hk
    rw [hids, List.getElem?_append_left (List.getElem?_eq_some_iff.mp hk).1]
    exact hk
  have hdrawn : s.drawn ≤ s'.drawn := by
    rw [drawn, drawn, hids, List.countP_append]
    exact Nat.le_add_right _ _
  refine ⟨hl, ?_, hbehind, fun k j st hk ↦ ?_, fun n t id' hm ↦ ?_, ?_, ?_, ?_,
    fun k id' hk ↦ ?_, fun k k' id' hk hk' ↦ ?_, hcounters⟩
  · rw [hids, htasks, List.length_append, List.length_append, h.ids]
    rfl
  · rw [htasks, List.getElem?_append] at hk
    rw [hshared]
    split at hk
    · obtain ⟨id', hid', hst⟩ := h.stands k j st hk
      exact ⟨id', hkeep k id' hid', hst⟩
    · rename_i hlt
      have hlen := (List.getElem?_eq_some_iff.mp hk).1
      rw [List.length_singleton] at hlen
      have hkk : k = s.system.tasks.length := by omega
      rw [hkk, Nat.sub_self] at hk
      cases hk
      refine ⟨id, ?_, hstands⟩
      rw [hids, hkk, ← h.ids, List.getElem?_concat_length]
  · rw [hshared] at hm
    obtain ⟨k, j, st, hid', hst, happ⟩ := h.owner n t id' hm
    refine ⟨k, j, st, hkeep k _ hid', ?_, happ⟩
    rw [htasks, List.getElem?_append_left (List.getElem?_eq_some_iff.mp hst).1]
    exact hst
  · rw [hshared]
    exact h.times
  · rw [hshared]
    exact h.unique
  · rw [hshared]
    exact h.table
  · rcases hold k id' hk with hk | ⟨-, rfl⟩
    · exact Nat.lt_of_lt_of_le (h.below k id' hk) hdrawn
    · rw [hnext id' rfl, drawn, drawn, hids, List.countP_append]
      exact Nat.lt_succ_self _
  · rcases hold k id' hk with hk | ⟨hkk, rfl⟩ <;> rcases hold k' id' hk' with hk' | ⟨hkk', he⟩
    · exact h.distinct k k' id' hk hk'
    · -- a new id has not been drawn before
      have hlt := h.below k id' hk
      rw [hnext id' he] at hlt
      exact absurd hlt (Nat.lt_irrefl _)
    · have hlt := h.below k' id' hk'
      rw [hnext id' rfl] at hlt
      exact absurd hlt (Nat.lt_irrefl _)
    · rw [hkk, hkk']

variable [Hypergraph G V HE E]

/-- A task that goes on in step keeps the snapshots apart. -/
theorem Kept.advance (h : Kept s) (hstep : s.inStep (.advance k : System.Action V HE E) = true)
    (hadv : s.system.advance k = some sys) : Kept { s with system := sys } := by
  have hl := (System.advance_cases h.locked hadv).1
  cases System.advance_advances hadv with
  | @acquire i work htask hfree =>
      exact h.silent hl htask rfl rfl (fun _ ↦ rfl) rfl rfl (fun id _ hstands ↦ hstands)
        fun happ ↦ happ.elim
  | @runs i call own finish value htask hown hjob =>
      obtain ⟨hevents, hsnapshots, hcounter⟩ := runJob_shared (congrArg finalState hjob)
      obtain ⟨-, graph, hj, -⟩ := TemporalHypergraph.runJob_eq_ok.mp hjob
      refine h.silent hl htask rfl List.length_set (counterOf_put hown hcounter) hevents
        hsnapshots (fun id _ hstands ↦ ?_) fun happ ↦ happ.elim
      cases hstands
      exact fun t t' id ↦ call.finish_ne_snapshotMarker hj t t' id
  | @fails i call own fault value htask hown hjob =>
      obtain ⟨hevents, hsnapshots, hcounter⟩ := runJob_shared (congrArg finalState hjob)
      refine h.silent hl htask rfl List.length_set (counterOf_put hown hcounter) hevents
        hsnapshots (fun id _ hstands ↦ ?_) fun happ ↦ happ.elim
      cases hstands
      exact fun id' hid' ↦ nomatch hid'
  | @marks i id htask =>
      refine h.silent hl htask rfl rfl (fun _ ↦ rfl) rfl rfl (fun id' _ hstands ↦ ?_)
        fun happ ↦ happ.elim
      cases hstands
      exact fun _ ↦ rfl
  | @ticks i finish own htask hown =>
      refine h.silent hl htask rfl List.length_set (counterOf_put hown rfl) rfl rfl
        (fun id hid hstands ↦ ?_) fun happ ↦ happ.elim
      cases id with
      | none => exact fun t id ↦ hstands own.clock.current t id
      | some id =>
          refine ⟨own.clock.current, hstands _, fun n id' hm ↦ ?_⟩
          -- the clock stands at no marker
          simp only [inStep, htask, hid] at hstep
          have hne := List.all_eq_true.mp hstep _ (List.mem_of_getElem? hm)
          simp only [System.clockOf, hown, Option.map_some, bne_self_eq_false,
            Bool.false_eq_true] at hne
  | @appends i event own htask hown hroom =>
      exact h.appends hl htask rfl List.length_set (counterOf_put hown rfl) rfl rfl
  | @inserts i snapshot own htask hown =>
      exact h.inserts hl htask rfl List.length_set (counterOf_put hown rfl) rfl rfl

/-- A snapshot is asked of a value that is not behind. -/
theorem Kept.createSnapshot (h : Kept s) (hl : sys.Locked)
    (hstep : s.inStep (.createSnapshot i : System.Action V HE E) = true)
    (hact : s.system.act (.createSnapshot i : System.Action V HE E) = some sys) :
    Kept { system := sys, ids := s.ids ++ [s.counterOf i],
           behind := s.behind.mapIdx fun j b ↦ b || j ≠ i } := by
  obtain ⟨hbehind, hroom⟩ := Bool.and_eq_true_iff.mp hstep
  have hbehind := of_decide_eq_true hbehind
  have hroom := of_decide_eq_true hroom
  obtain ⟨r, hr, hact⟩ := Option.map_eq_some_iff.mp hact
  obtain ⟨own, hown, ⟨id, value, hx, rfl⟩ | ⟨fault, value, hx, rfl⟩⟩ := System.exec_cases hr
  swap
  · cases hx
  cases hx
  subst hact
  have hcounter : s.counterOf i = some own.snapshotCounter := by rw [counterOf, hown]; rfl
  have hval : own.snapshotCounter.val = s.drawn := by
    rw [h.counters i _ hcounter hbehind, Nat.mod_eq_of_lt hroom]
  have hi : i < s.system.values.length := (List.getElem?_eq_some_iff.mp hown).1
  refine h.starts hl rfl rfl (by rw [hcounter]; rfl) rfl (fun id' hid' ↦ ?_) ?_ fun j id hj hbj ↦ ?_
  · cases hid'
    exact hval
  · change (List.mapIdx _ s.behind).length = (s.system.values.set i _).length
    rw [List.length_mapIdx, List.length_set, h.behind]
  · -- every other value is behind now
    change (List.mapIdx _ s.behind)[j]? = some false at hbj
    rw [List.getElem?_mapIdx] at hbj
    obtain ⟨b, -, hbj⟩ := Option.map_eq_some_iff.mp hbj
    have hij : j = i := by
      rw [Bool.or_eq_false_iff, decide_eq_false_iff_not, not_not] at hbj
      exact hbj.2
    subst hij
    change (s.system.values.set j _)[j]?.map Own.snapshotCounter = some id at hj
    rw [List.getElem?_set_self hi] at hj
    cases hj
    change (own.snapshotCounter + 1 : Fin (2 ^ 64)).val =
      (s.ids ++ [s.counterOf j]).countP Option.isSome % 2 ^ 64
    rw [hcounter, List.countP_append, Fin.val_add, hval]
    rfl

/-- A value is cloned. -/
theorem Kept.clone (h : Kept s) (hl : sys.Locked)
    (hact : s.system.act (.clone i : System.Action V HE E) = some sys) :
    Kept { s with system := sys, behind := s.behind ++ [s.behind.getD i true] } := by
  obtain ⟨own, hown, rfl⟩ := Option.map_eq_some_iff.mp hact
  refine ⟨hl, h.ids, ?_, h.stands, h.owner, h.times, h.unique, h.table, h.below, h.distinct,
    fun j id hj hbj ↦ ?_⟩
  · rw [List.length_append, List.length_append, h.behind]
    rfl
  · change (s.system.values ++ [_])[j]?.map Own.snapshotCounter = some id at hj
    change (s.behind ++ [s.behind.getD i true])[j]? = some false at hbj
    rw [List.getElem?_append] at hj hbj
    rw [h.behind] at hbj
    split at hj
    · rename_i hlt
      rw [if_pos hlt] at hbj
      exact h.counters j id hj hbj
    · rename_i hlt
      rw [if_neg hlt] at hbj
      -- the clone is not behind if the value is not
      have hzero : j - s.system.values.length = 0 :=
        Nat.lt_one_iff.mp (List.getElem?_eq_some_iff.mp hbj).1
      rw [hzero, List.getElem?_cons_zero, Option.some.injEq, List.getD_eq_getElem?_getD] at hbj
      rw [hzero] at hj
      cases hj
      refine h.counters i _ (by rw [counterOf, hown]; rfl) ?_
      cases hb : s.behind[i]? with
      | none =>
          rw [hb] at hbj
          cases hbj
      | some b =>
          rw [hb] at hbj
          rw [show b = false from hbj]

/-- An action in step keeps the snapshots apart. -/
theorem Kept.act {action : System.Action V HE E} (h : Kept s) (hstep : s.inStep action = true)
    (hact : s.act action = some s') : Kept s' := by
  obtain ⟨sys, hsys, hact⟩ := Option.bind_eq_some_iff.mp hact
  have hl := (System.act_cases h.locked hsys).1
  cases action with
  | call i call =>
      cases hact
      simp only [System.act] at hsys
      split at hsys
      · cases hsys
        refine h.starts hl rfl rfl rfl rfl (fun _ hid ↦ by cases hid) h.behind fun j id hj hbj ↦ ?_
        change id.val = (s.ids ++ [none]).countP Option.isSome % 2 ^ 64
        rw [List.countP_append]
        exact h.counters j id hj hbj
      · cases hsys
  | createSnapshot i =>
      cases hact
      exact h.createSnapshot hl hstep hsys
  | clone i =>
      cases hact
      exact h.clone hl hsys
  | advance k =>
      cases hact
      exact h.advance hstep hsys

end Steps

/-- A snapshot has been returned to its caller. -/
def Returned (s : Snapping G V HE E) (k : Nat) (id : SnapshotId) : Prop :=
  s.ids[k]? = some (some id) ∧ ∃ i, s.system.tasks[k]? = some (i, .done)

theorem kept_ofValue (graph : G) (tap : Option (Channel (TemporalEvent V HE))) :
    Kept (ofValue (fresh graph tap) : Snapping G V HE E) where
  locked := (System.stamps_ofValue graph tap).1
  ids := rfl
  behind := rfl
  stands _ _ _ h := nomatch h
  owner _ _ _ h := by cases tap <;> cases h
  times _ _ _ _ _ h := by cases tap <;> cases h
  unique _ _ _ _ _ h := by cases tap <;> cases h
  table t snapshot h := by
    have hnone : (∅ : Std.TreeMap Timestamp Snapshot)[t]? = none := Std.TreeMap.getElem?_emptyc
    cases tap <;> exact nomatch hnone.symm.trans h
  below _ _ h := nomatch h
  distinct _ _ _ h := nomatch h
  counters i id h _ := by
    cases i with
    | zero =>
        cases tap <;> cases h <;> rfl
    | succ i => cases h

section Table

variable {s : Snapping G V HE E}

/-- Two entries of the table with one id are the same entry. -/
theorem Kept.eq_of_id (h : Kept s) {t t' : Timestamp} {snapshot snapshot' : Snapshot}
    (ht : (t, snapshot) ∈ s.system.shared.snapshots.toList)
    (ht' : (t', snapshot') ∈ s.system.shared.snapshots.toList) (hid : snapshot.id = snapshot'.id) :
    (t, snapshot) = (t', snapshot') := by
  rw [Std.TreeMap.mem_toList_iff_getElem?_eq_some] at ht ht'
  have hm := (h.table t snapshot ht).2
  have hm' := (h.table t' snapshot' ht').2
  rw [← hid] at hm'
  have hn := h.unique _ _ _ _ _ hm hm'
  rw [hn, MarkedAt, hm'] at hm
  cases hm
  rw [ht] at ht'
  rw [Option.some.inj ht']

/-- The snapshot of a call that has returned. -/
theorem Kept.returned (h : Kept s) {k : Nat} {id : SnapshotId} (hr : s.Returned k id) :
    ∃ snapshot : Snapshot, snapshot.id = id ∧
      (snapshot.timestamp, snapshot) ∈ s.system.shared.snapshots.toList ∧
      MarkedAt s.system.shared.events snapshot.eventIndex snapshot.timestamp id := by
  obtain ⟨hid, i, htask⟩ := hr
  obtain ⟨id', hid', hstands⟩ := h.stands k i .done htask
  cases hid.symm.trans hid'
  obtain ⟨snapshot, rfl, hstored, hmarked⟩ := hstands id rfl
  exact ⟨snapshot, rfl, Std.TreeMap.mem_toList_iff_getElem?_eq_some.mpr hstored, hmarked⟩

end Table

variable [Hypergraph G V HE E]

/-- **Snapshot identity.**  As long as no id is drawn through a value that is behind, and no
marker is stamped by a clock that stands at the timestamp of an earlier marker: the ids
that have been returned are distinct, a returned id finds its snapshot, whose index is that
of its own marker, and every returned snapshot is listed exactly once. -/
theorem snapshots_identified (graph : G) (tap : Option (Channel (TemporalEvent V HE)))
    (as : List (System.Action V HE E)) (fin : Snapping G V HE E)
    (h : (ofValue (fresh graph tap)).runInStep as = some fin) :
    (∀ k k' id, fin.Returned k id → fin.Returned k' id → k = k') ∧
    (∀ k id, fin.Returned k id → ∃ snapshot,
      fin.system.shared.getSnapshot id = some snapshot ∧ snapshot.id = id ∧
      MarkedAt fin.system.shared.events snapshot.eventIndex snapshot.timestamp id ∧
      ∀ n t, MarkedAt fin.system.shared.events n t id → n = snapshot.eventIndex) ∧
    (∀ k id, fin.Returned k id →
      (fin.system.shared.listSnapshots.map Prod.snd).count id = 1) := by
  have hk : Kept fin := foldlM_inv (P := Kept) (fun action _ s s' hs hstep ↦ by
    split at hstep
    · rename_i hin
      exact hs.act hin hstep
    · cases hstep) (kept_ofValue graph tap) h
  refine ⟨fun k k' id hr hr' ↦ hk.distinct k k' id hr.1 hr'.1, fun k id hr ↦ ?_, fun k id hr ↦ ?_⟩
  · obtain ⟨snapshot, hid, hmem, hmarked⟩ := hk.returned hr
    refine ⟨snapshot, ?_, hid, hmarked, fun n t hm ↦ hk.unique _ _ _ _ _ hm hmarked⟩
    obtain ⟨found, hfound⟩ := Option.isSome_iff_exists.mp
      (List.find?_isSome.mpr ⟨snapshot, List.mem_map_of_mem hmem, decide_eq_true hid⟩ :
        (fin.system.shared.getSnapshot id).isSome)
    have hfid : found.id = id := by simpa using List.find?_some hfound
    obtain ⟨⟨t, other⟩, hother, rfl⟩ := List.mem_map.mp (List.mem_of_find?_eq_some hfound)
    have heq := hk.eq_of_id hother hmem (hfid.trans hid.symm)
    exact hfound.trans (congrArg some (Prod.mk.inj heq).2)
  · obtain ⟨snapshot, hid, hmem, -⟩ := hk.returned hr
    have hlist : fin.system.shared.listSnapshots.map Prod.snd =
        fin.system.shared.snapshots.toList.map fun p ↦ p.2.id := by
      rw [Shared.listSnapshots, List.map_map]
      rfl
    have hnodup : fin.system.shared.snapshots.toList.Nodup :=
      Std.TreeMap.distinct_keys_toList.imp fun hne heq ↦
        hne (by rw [heq]; exact Std.ReflCmp.compare_self)
    rw [hlist]
    refine List.count_eq_one_of_mem (hnodup.map_on fun p hp p' hp' hid ↦ ?_) ?_
    · exact hk.eq_of_id hp hp' hid
    · exact List.mem_map.mpr ⟨_, hmem, hid⟩

end Snapping

/-- Asking a value for a snapshot and letting the task run to its end. -/
def snapshotAlone (i k : Nat) : List (System.Action Nat Nat MapGraphError) :=
  .createSnapshot i :: List.replicate 5 (.advance k)

/-- A value and its clone draw the same id, and the second snapshot replaces the first. -/
theorem clones_share_an_id :
    ∃ fin : System (MapGraph Nat Nat) Nat Nat MapGraphError,
      (System.ofValue (fresh Hypergraph.new none)).acts
        (.clone 0 :: snapshotAlone 0 0 ++ snapshotAlone 1 1) = some fin ∧
      fin.shared.events.events = [.snapshotMarker 0 0, .snapshotMarker 0 0] ∧
      fin.tasks.map Prod.fst = [0, 1] ∧ fin.tasks.all (·.2.isDone) = true ∧
      fin.shared.listSnapshots = [(0, 0)] ∧
      fin.shared.getSnapshot 0 = some ⟨0, 0, 1⟩ :=
  ⟨_, rfl, rfl, rfl, rfl, by decide +kernel, by decide +kernel⟩

/-- A value hands over to its clone. -/
theorem snapshots_identified_in_a_clone :
    ∃ fin : Snapping (MapGraph Nat Nat) Nat Nat MapGraphError,
      (Snapping.ofValue (fresh Hypergraph.new none)).runInStep
        (snapshotAlone 0 0 ++ .clone 0 :: snapshotAlone 1 1) = some fin ∧
      fin.Returned 0 0 ∧ fin.Returned 1 1 ∧
      (fin.system.shared.listSnapshots.map Prod.snd).count 0 = 1 ∧
      (fin.system.shared.listSnapshots.map Prod.snd).count 1 = 1 := by
  obtain ⟨fin, hfin, hids, htasks⟩ : ∃ fin : Snapping (MapGraph Nat Nat) Nat Nat MapGraphError,
      (Snapping.ofValue (fresh Hypergraph.new none)).runInStep
        (snapshotAlone 0 0 ++ .clone 0 :: snapshotAlone 1 1) = some fin ∧
      fin.ids = [some 0, some 1] ∧ fin.system.tasks = [(0, .done), (1, .done)] :=
    ⟨_, rfl, rfl, rfl⟩
  have hfirst : fin.Returned 0 0 := by
    rw [Snapping.Returned, hids, htasks]
    exact ⟨rfl, 0, rfl⟩
  have hsecond : fin.Returned 1 1 := by
    rw [Snapping.Returned, hids, htasks]
    exact ⟨rfl, 1, rfl⟩
  obtain ⟨-, -, hlisted⟩ := Snapping.snapshots_identified Hypergraph.new none _ fin hfin
  exact ⟨fin, hfin, hfirst, hsecond, hlisted 0 0 hfirst, hlisted 1 1 hsecond⟩

end Koalisi.Topology
