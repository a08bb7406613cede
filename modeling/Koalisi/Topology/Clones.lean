import Koalisi.Topology.Runs

/-!
# Clones and interleavings

A value and its clones share the graph, the log, the snapshots, the tap and the
mutation lock; each has a clock of its own, a clone's starting where its original's
stood.  A method called through one of them becomes a task, and tasks of all of them
interleave: `Stage` lists where a task can be interrupted, `advance` is what it does
next, and a `System` is what they all act on.  The log entry of an event is kept
together with the value it was recorded through, which nothing reads.

The mutation lock spans a task's tick and its append, so the events recorded through
one value are appended in the order of its ticks (`recorded_through_one_value`).
Between values there is no such order.
-/

namespace Koalisi.Topology

open Koalisi.Lib Koalisi.Lib.Fallible

variable {G V HE E T : Type}

/-- What a task records. -/
inductive Work (V HE E : Type) where
  | mutation (call : Call V HE E)
  | snapshot (id : SnapshotId)

/-- Where a task stands. -/
inductive Stage (V HE E : Type) where
  /-- Before the mutation lock. -/
  | waiting (work : Work V HE E)
  /-- It holds the lock, and its job has not run. -/
  | working (work : Work V HE E)
  /-- It holds the lock, its job has run, and the clock has not ticked. -/
  | finishing (finish : Timestamp → TemporalEvent V HE)
  /-- It holds the lock, and its event is not appended. -/
  | appending (event : TemporalEvent V HE)
  /-- It has released the lock, and its snapshot is not stored. -/
  | inserting (snapshot : Snapshot)
  | done

/-- The task is between its tick and its append. -/
def Stage.stamped : Stage V HE E → Bool
  | .appending _ => true
  | _ => false

/-- The task holds the mutation lock. -/
def Stage.holds : Stage V HE E → Bool
  | .working _ => true
  | .finishing _ => true
  | .appending _ => true
  | _ => false

/-- The task has ended. -/
def Stage.isDone : Stage V HE E → Bool
  | .done => true
  | _ => false

/-- A value, its clones, and the tasks started through them. -/
structure System (G V HE E : Type) where
  shared : Shared G V HE
  /-- The value, and its clones in the order they were made. -/
  values : List Own
  /-- The task holding the mutation lock. -/
  lock : Option Nat
  /-- The value each task was started through, and where it stands. -/
  tasks : List (Nat × Stage V HE E)
  /-- The log, with the value each event was recorded through. -/
  recorded : List (Nat × TemporalEvent V HE)

namespace System

/-- One value, and nothing started. -/
def ofValue (value : TemporalHypergraph G V HE) : System G V HE E where
  shared := value.toShared
  values := [value.toOwn]
  lock := none
  tasks := []
  recorded := []

/-- Write a value back. -/
def put (sys : System G V HE E) (i : Nat) (value : TemporalHypergraph G V HE) :
    System G V HE E :=
  { sys with shared := value.toShared, values := sys.values.set i value.toOwn }

/-- Run a computation on a value of the system. -/
def exec (sys : System G V HE E) (i : Nat)
    (x : EStateM (Fault E) (TemporalHypergraph G V HE) T) :
    Option (EStateM.Result (Fault E) (System G V HE E) T) :=
  sys.values[i]?.map fun own ↦ match x ⟨sys.shared, own⟩ with
    | .ok a value => .ok a (sys.put i value)
    | .error fault value => .error fault (sys.put i value)

/-- A task goes on to a stage. -/
def goto (sys : System G V HE E) (k i : Nat) (stage : Stage V HE E) : System G V HE E :=
  { sys with tasks := sys.tasks.set k (i, stage) }

/-- A task releases the mutation lock and goes on to a stage. -/
def release (sys : System G V HE E) (k i : Nat) (stage : Stage V HE E) : System G V HE E :=
  { sys.goto k i stage with lock := none }

/-- What follows the append of an event: a snapshot marker's snapshot is yet to be stored. -/
def afterAppend (index : Nat) : TemporalEvent V HE → Stage V HE E
  | .snapshotMarker timestamp snapshotId => .inserting ⟨snapshotId, timestamp, index⟩
  | _ => .done

/-- What a task does next, if it can go on. -/
def advance [Hypergraph G V HE E] (sys : System G V HE E) (k : Nat) :
    Option (System G V HE E) :=
  match sys.tasks[k]? with
  | none => none
  | some (i, stage) =>
    match stage with
    | .waiting work =>
        if sys.lock.isNone then some { sys.goto k i (.working work) with lock := some k } else none
    | .working (.mutation call) =>
        (sys.exec i (TemporalHypergraph.runJob call.mutation)).map fun
          | .ok finish sys => sys.goto k i (.finishing fun timestamp ↦ (finish timestamp).1)
          | .error _ sys => sys.release k i .done
    | .working (.snapshot id) =>
        some (sys.goto k i (.finishing fun timestamp ↦ .snapshotMarker timestamp id))
    | .finishing finish =>
        (sys.exec i TemporalHypergraph.tick).map fun
          | .ok timestamp sys => sys.goto k i (.appending (finish timestamp))
          | .error _ sys => sys.release k i .done
    | .appending event =>
        if sys.shared.events.len < vecMax then
          (sys.exec i (TemporalHypergraph.record event)).map fun
            | .ok _ sys' => { sys'.release k i (afterAppend sys.shared.events.len event) with
                recorded := sys.recorded ++ [(i, event)] }
            | .error _ sys => sys.release k i .done
        else none
    | .inserting snapshot =>
        (sys.exec i (TemporalHypergraph.insertSnapshot snapshot)).map fun
          | .ok _ sys => sys.goto k i .done
          | .error _ sys => sys.goto k i .done
    | .done => none

/-- What can happen in a system. -/
inductive Action (V HE E : Type) where
  /-- A mutation method is called through a value. -/
  | call (i : Nat) (call : Call V HE E)
  /-- A snapshot is asked of a value: its id is drawn before the lock is taken. -/
  | createSnapshot (i : Nat)
  /-- A value is cloned. -/
  | clone (i : Nat)
  /-- A task goes on. -/
  | advance (k : Nat)

/-- One action, if it is possible. -/
def act [Hypergraph G V HE E] (sys : System G V HE E) : Action V HE E → Option (System G V HE E)
  | .call i call =>
      if i < sys.values.length then
        some { sys with tasks := sys.tasks ++ [(i, .waiting (.mutation call))] }
      else none
  | .createSnapshot i =>
      (sys.exec i TemporalHypergraph.nextSnapshotId).map fun
        | .ok id sys => { sys with tasks := sys.tasks ++ [(i, .waiting (.snapshot id))] }
        | .error _ sys => sys
  | .clone i => sys.values[i]?.map fun own ↦
      { sys with values := sys.values ++
          [(TemporalHypergraph.clone ⟨sys.shared, own⟩ : Own)] }
  | .advance k => sys.advance k

/-- Actions one after the other. -/
def acts [Hypergraph G V HE E] (as : List (Action V HE E)) (sys : System G V HE E) :
    Option (System G V HE E) :=
  as.foldlM act sys

/-- The events recorded through a value, in the order they were appended. -/
def recordedBy (sys : System G V HE E) (i : Nat) : List (TemporalEvent V HE) :=
  (sys.recorded.filter (·.1 = i)).map Prod.snd

/-- The clock of a value. -/
def clockOf (sys : System G V HE E) (i : Nat) : Option Timestamp :=
  sys.values[i]?.map fun own ↦ own.clock.current

/-! ## Who holds the lock -/

/-- A task in a stage that holds the lock is its holder, tasks and log entries belong to
values that exist, and a task that will stamp its event stamps it faithfully. -/
structure Locked (sys : System G V HE E) : Prop where
  holder : ∀ (k i : Nat) (stage : Stage V HE E), sys.tasks[k]? = some (i, stage) →
    stage.holds = true → sys.lock = some k
  tasks : ∀ (k i : Nat) (stage : Stage V HE E), sys.tasks[k]? = some (i, stage) →
    i < sys.values.length
  recorded : ∀ p ∈ sys.recorded, p.1 < sys.values.length
  finish : ∀ (k i : Nat) (finish : Timestamp → TemporalEvent V HE),
    sys.tasks[k]? = some (i, .finishing finish) → ∀ t, (finish t).timestamp = t

section Locked

variable {sys sys' : System G V HE E} {k i : Nat} {stage stage' : Stage V HE E}

theorem goto_tasks (h : sys.tasks[k]? = some (i, stage)) (k' : Nat) :
    (sys.goto k i stage').tasks[k']? =
      if k' = k then some (i, stage') else sys.tasks[k']? := by
  obtain ⟨hk, _⟩ := List.getElem?_eq_some_iff.mp h
  change (sys.tasks.set k (i, stage'))[k']? = _
  rw [List.getElem?_set]
  by_cases hkk : k' = k
  · rw [if_pos hkk.symm, if_pos hkk, if_pos hk]
  · rw [if_neg (Ne.symm hkk), if_neg hkk]

/-- Two tasks never hold the lock. -/
theorem Locked.eq_of_holds (hl : Locked sys) {k' i' : Nat}
    (h : sys.tasks[k]? = some (i, stage)) (hh : stage.holds = true)
    (h' : sys.tasks[k']? = some (i', stage')) (hh' : stage'.holds = true) : k' = k :=
  Option.some.inj ((hl.holder k' i' stage' h' hh').symm.trans (hl.holder k i stage h hh))

/-- Only the lock, the tasks, the number of values, and the recorded events matter. -/
theorem Locked.congr (hl : Locked sys) (htasks : sys'.tasks = sys.tasks)
    (hlock : sys'.lock = sys.lock) (hvalues : sys'.values.length = sys.values.length)
    (hrec : sys'.recorded = sys.recorded) : Locked sys' where
  holder := by rw [htasks, hlock]; exact hl.holder
  tasks := by rw [htasks, hvalues]; exact hl.tasks
  recorded := by rw [hrec, hvalues]; exact hl.recorded
  finish := by rw [htasks]; exact hl.finish

/-- A task goes on without taking or releasing the lock. -/
theorem Locked.goto (hl : Locked sys) (h : sys.tasks[k]? = some (i, stage))
    (hh : stage'.holds = true → stage.holds = true)
    (hf : ∀ finish, stage' = .finishing finish → ∀ t, (finish t).timestamp = t) :
    Locked (sys.goto k i stage') where
  holder k' i' st hk hst := by
    rw [goto_tasks h] at hk
    split at hk
    · rename_i hkk
      cases hk
      rw [hkk]
      exact hl.holder k i stage h (hh hst)
    · exact hl.holder k' i' st hk hst
  tasks k' i' st hk := by
    rw [goto_tasks h] at hk
    split at hk
    · cases hk
      exact hl.tasks k i stage h
    · exact hl.tasks k' i' st hk
  recorded := hl.recorded
  finish k' i' finish hk := by
    rw [goto_tasks h] at hk
    split at hk
    · cases hk
      exact hf finish rfl
    · exact hl.finish k' i' finish hk

/-- A waiting task takes the lock. -/
theorem Locked.acquire (hl : Locked sys) (h : sys.tasks[k]? = some (i, stage))
    (hfree : sys.lock = none) (work : Work V HE E) :
    Locked { sys.goto k i (.working work) with lock := some k } where
  holder k' i' st hk hst := by
    rw [goto_tasks h] at hk
    split at hk
    · rename_i hkk
      rw [hkk]
    · have hheld := hl.holder k' i' st hk hst
      rw [hfree] at hheld
      cases hheld
  tasks k' i' st hk := by
    rw [goto_tasks h] at hk
    split at hk
    · cases hk
      exact hl.tasks k i stage h
    · exact hl.tasks k' i' st hk
  recorded := hl.recorded
  finish k' i' finish hk := by
    rw [goto_tasks h] at hk
    split at hk
    · cases hk
    · exact hl.finish k' i' finish hk

/-- The holder releases the lock. -/
theorem Locked.release (hl : Locked sys) (h : sys.tasks[k]? = some (i, stage))
    (hh : stage.holds = true) (hn : stage'.holds = false) : Locked (sys.release k i stage') where
  holder k' i' st hk hst := by
    change (sys.goto k i stage').tasks[k']? = _ at hk
    rw [goto_tasks h] at hk
    split at hk
    · cases hk
      rw [hn] at hst
      cases hst
    · rename_i hkk
      exact absurd (hl.eq_of_holds h hh hk hst) hkk
  tasks k' i' st hk := by
    change (sys.goto k i stage').tasks[k']? = _ at hk
    rw [goto_tasks h] at hk
    split at hk
    · cases hk
      exact hl.tasks k i stage h
    · exact hl.tasks k' i' st hk
  recorded := hl.recorded
  finish k' i' finish hk := by
    change (sys.goto k i stage').tasks[k']? = _ at hk
    rw [goto_tasks h] at hk
    split at hk
    · cases hk
      cases hn
    · exact hl.finish k' i' finish hk

/-- A task is started through a value. -/
theorem Locked.start (hl : Locked sys) (hi : i < sys.values.length) (work : Work V HE E) :
    Locked { sys with tasks := sys.tasks ++ [(i, .waiting work)] } := by
  have hold : ∀ (k' i' : Nat) (st : Stage V HE E),
      (sys.tasks ++ [(i, Stage.waiting work)])[k']? = some (i', st) →
      sys.tasks[k']? = some (i', st) ∨ i' = i ∧ st = .waiting work := by
    intro k' i' st hk
    rw [List.getElem?_append] at hk
    split at hk
    · exact Or.inl hk
    · cases List.mem_singleton.mp (List.mem_of_getElem? hk)
      exact Or.inr ⟨rfl, rfl⟩
  refine ⟨fun k' i' st hk hst ↦ ?_, fun k' i' st hk ↦ ?_, hl.recorded, fun k' i' finish hk ↦ ?_⟩
  · rcases hold k' i' st hk with hk | ⟨_, rfl⟩
    · exact hl.holder k' i' st hk hst
    · cases hst
  · rcases hold k' i' st hk with hk | ⟨rfl, _⟩
    · exact hl.tasks k' i' st hk
    · exact hi
  · rcases hold k' i' _ hk with hk | ⟨_, he⟩
    · exact hl.finish k' i' finish hk
    · cases he

theorem Locked.put (hl : Locked sys) (value : TemporalHypergraph G V HE) :
    Locked (sys.put i value) :=
  hl.congr rfl rfl List.length_set rfl

end Locked

/-! ## What one action can do -/

/-- Nothing happens to the log, the tap, the clocks, or a stamped event. -/
structure Silent (sys sys' : System G V HE E) : Prop where
  events : sys'.shared.events = sys.shared.events
  eventTap : sys'.shared.eventTap = sys.shared.eventTap
  recorded : sys'.recorded = sys.recorded
  clocks : ∀ i, sys'.clockOf i = sys.clockOf i
  stamped : ∀ (k i : Nat) (event : TemporalEvent V HE),
    sys'.tasks[k]? = some (i, .appending event) ↔ sys.tasks[k]? = some (i, .appending event)

/-- A value is cloned: the clone's clock starts where the value's clock stands. -/
structure Clones (sys sys' : System G V HE E) (i : Nat) : Prop where
  events : sys'.shared.events = sys.shared.events
  eventTap : sys'.shared.eventTap = sys.shared.eventTap
  recorded : sys'.recorded = sys.recorded
  tasks : sys'.tasks = sys.tasks
  clock : sys'.clockOf sys.values.length = sys.clockOf i
  clocks : ∀ j, j ≠ sys.values.length → sys'.clockOf j = sys.clockOf j

/-- A task stamps its event with the clock of its value, which ticks. -/
structure Ticks (sys sys' : System G V HE E) (k i : Nat) (event : TemporalEvent V HE) :
    Prop where
  task : ∃ finish, sys.tasks[k]? = some (i, .finishing finish)
  events : sys'.shared.events = sys.shared.events
  eventTap : sys'.shared.eventTap = sys.shared.eventTap
  recorded : sys'.recorded = sys.recorded
  stamp : sys.clockOf i = some event.timestamp
  clock : sys'.clockOf i = some (Clock.startingAt event.timestamp).tick.2.current
  clocks : ∀ j, j ≠ i → sys'.clockOf j = sys.clockOf j
  tasks : ∀ k', sys'.tasks[k']? = if k' = k then some (i, .appending event) else sys.tasks[k']?

/-- A task appends its event, and sends it to the tap. -/
structure Appends (sys sys' : System G V HE E) (k i : Nat) (event : TemporalEvent V HE) :
    Prop where
  task : sys.tasks[k]? = some (i, .appending event)
  room : sys.shared.events.len < vecMax
  events : sys'.shared.events = sys.shared.events.append event
  eventTap : sys'.shared.eventTap = tapEvent sys.shared.eventTap event
  recorded : sys'.recorded = sys.recorded ++ [(i, event)]
  clocks : ∀ j, sys'.clockOf j = sys.clockOf j
  stamped : ∀ (k' j : Nat) (e : TemporalEvent V HE),
    sys'.tasks[k']? = some (j, .appending e) → k' ≠ k ∧ sys.tasks[k']? = some (j, .appending e)

section Cases

variable {sys sys' : System G V HE E} {k i : Nat} {stage stage' : Stage V HE E}

theorem exec_cases {x : EStateM (Fault E) (TemporalHypergraph G V HE) T}
    {r : EStateM.Result (Fault E) (System G V HE E) T} (h : sys.exec i x = some r) :
    ∃ own, sys.values[i]? = some own ∧
      ((∃ a value, x ⟨sys.shared, own⟩ = .ok a value ∧ r = .ok a (sys.put i value)) ∨
        ∃ fault value, x ⟨sys.shared, own⟩ = .error fault value ∧
          r = .error fault (sys.put i value)) := by
  obtain ⟨own, hown, rfl⟩ := Option.map_eq_some_iff.mp h
  refine ⟨own, hown, ?_⟩
  cases hx : x ⟨sys.shared, own⟩ with
  | ok a value => exact Or.inl ⟨a, value, rfl, rfl⟩
  | error fault value => exact Or.inr ⟨fault, value, rfl, rfl⟩

/-- A call through a value starts a task. -/
theorem act_call_eq_some [Hypergraph G V HE E] {call : Call V HE E}
    (h : sys.act (.call i call) = some sys') :
    i < sys.values.length ∧
      sys' = { sys with tasks := sys.tasks ++ [(i, .waiting (.mutation call))] } := by
  simp only [act] at h
  split at h
  · rename_i hi
    exact ⟨hi, (Option.some.inj h).symm⟩
  · cases h

/-- So does the wish for a snapshot, after it took the next id. -/
theorem act_createSnapshot_eq_some [Hypergraph G V HE E]
    (h : sys.act (.createSnapshot i) = some sys') :
    ∃ own id value, sys.values[i]? = some own ∧
      TemporalHypergraph.nextSnapshotId (E := E) ⟨sys.shared, own⟩ = .ok id value ∧
      sys' = { sys.put i value with
        tasks := (sys.put i value).tasks ++ [(i, .waiting (.snapshot id))] } := by
  obtain ⟨r, hr, h⟩ := Option.map_eq_some_iff.mp h
  obtain ⟨own, hown, ⟨id, value, hx, rfl⟩ | ⟨fault, value, hx, rfl⟩⟩ := exec_cases hr
  · exact ⟨own, id, value, hown, hx, h.symm⟩
  · cases hx

theorem clockOf_put {own : Own} (h : sys.values[i]? = some own)
    (value : TemporalHypergraph G V HE) (j : Nat) :
    (sys.put i value).clockOf j = if j = i then some value.clock.current else sys.clockOf j := by
  obtain ⟨hi, _⟩ := List.getElem?_eq_some_iff.mp h
  change (sys.values.set i value.toOwn)[j]?.map _ = _
  rw [List.getElem?_set]
  by_cases hj : j = i
  · rw [if_pos hj.symm, if_pos hj, if_pos hi]
    rfl
  · rw [if_neg (Ne.symm hj), if_neg hj]
    rfl

/-- Writing back a value with the same clock moves no clock. -/
theorem clockOf_put_same {own : Own} (h : sys.values[i]? = some own)
    {value : TemporalHypergraph G V HE} (hc : value.clock = own.clock) (j : Nat) :
    (sys.put i value).clockOf j = sys.clockOf j := by
  rw [clockOf_put h]
  split
  · rename_i hj
    rw [hj, clockOf, h, hc]
    rfl
  · rfl

/-- A job changes nothing but the graph and its lock. -/
theorem runJob_only (job : Job G E T) (self : TemporalHypergraph G V HE) :
    ∃ graph poisoned, finalState (TemporalHypergraph.runJob job self) =
      { self with graph := graph, poisoned := poisoned } := by
  unfold TemporalHypergraph.runJob
  split
  · exact ⟨self.graph, self.poisoned, rfl⟩
  · split <;> exact ⟨_, _, rfl⟩

/-- A job leaves the log, the tap and the clock alone. -/
theorem runJob_frame (job : Job G E T) (self : TemporalHypergraph G V HE) :
    (finalState (TemporalHypergraph.runJob job self)).events = self.events ∧
      (finalState (TemporalHypergraph.runJob job self)).eventTap = self.eventTap ∧
      (finalState (TemporalHypergraph.runJob job self)).clock = self.clock := by
  obtain ⟨graph, poisoned, h⟩ := runJob_only job self
  rw [h]
  exact ⟨rfl, rfl, rfl⟩

/-- A task that goes on to a stage before the tick or after the append is silent. -/
theorem Silent.goto (h : sys.tasks[k]? = some (i, stage)) (hs : stage.stamped = false)
    (hs' : stage'.stamped = false) : Silent sys (sys.goto k i stage') where
  events := rfl
  eventTap := rfl
  recorded := rfl
  clocks _ := rfl
  stamped k' i' event := by
    rw [goto_tasks h]
    split
    · rename_i hk
      rw [hk, h]
      constructor <;> intro hst <;> cases hst
      · cases hs'
      · cases hs
    · exact Iff.rfl

/-- Silence does not depend on who holds the lock. -/
theorem Silent.withLock (h : Silent sys sys') (lock : Option Nat) :
    Silent sys { sys' with lock := lock } :=
  ⟨h.events, h.eventTap, h.recorded, h.clocks, h.stamped⟩

/-- Writing back a value with the same log, tap and clock is silent. -/
theorem Silent.put {own : Own} (h : sys.values[i]? = some own)
    {value : TemporalHypergraph G V HE} (he : value.events = sys.shared.events)
    (ht : value.eventTap = sys.shared.eventTap) (hc : value.clock = own.clock) :
    Silent sys (sys.put i value) where
  events := he
  eventTap := ht
  recorded := rfl
  clocks := clockOf_put_same h hc
  stamped _ _ _ := Iff.rfl

theorem Silent.trans {sys'' : System G V HE E} (h : Silent sys sys') (h' : Silent sys' sys'') :
    Silent sys sys'' where
  events := h'.events.trans h.events
  eventTap := h'.eventTap.trans h.eventTap
  recorded := h'.recorded.trans h.recorded
  clocks i := (h'.clocks i).trans (h.clocks i)
  stamped k i event := (h'.stamped k i event).trans (h.stamped k i event)

/-- What a task can do next, with the system it leads to. -/
inductive Advances [Hypergraph G V HE E] (sys : System G V HE E) (k : Nat) :
    System G V HE E → Prop where
  | acquire {i : Nat} {work : Work V HE E} (htask : sys.tasks[k]? = some (i, .waiting work))
      (hfree : sys.lock = none) :
      Advances sys k { sys.goto k i (.working work) with lock := some k }
  | runs {i : Nat} {call : Call V HE E} {own : Own}
      {finish : Timestamp → TemporalEvent V HE × call.Reply} {value : TemporalHypergraph G V HE}
      (htask : sys.tasks[k]? = some (i, .working (.mutation call)))
      (hown : sys.values[i]? = some own)
      (hjob : TemporalHypergraph.runJob call.mutation ⟨sys.shared, own⟩ = .ok finish value) :
      Advances sys k ((sys.put i value).goto k i (.finishing fun t ↦ (finish t).1))
  | fails {i : Nat} {call : Call V HE E} {own : Own} {fault : Fault E}
      {value : TemporalHypergraph G V HE}
      (htask : sys.tasks[k]? = some (i, .working (.mutation call)))
      (hown : sys.values[i]? = some own)
      (hjob : TemporalHypergraph.runJob call.mutation ⟨sys.shared, own⟩ = .error fault value) :
      Advances sys k ((sys.put i value).release k i .done)
  | marks {i : Nat} {id : SnapshotId}
      (htask : sys.tasks[k]? = some (i, .working (.snapshot id))) :
      Advances sys k (sys.goto k i (.finishing fun t ↦ .snapshotMarker t id))
  | ticks {i : Nat} {finish : Timestamp → TemporalEvent V HE} {own : Own}
      (htask : sys.tasks[k]? = some (i, .finishing finish)) (hown : sys.values[i]? = some own) :
      Advances sys k ((sys.put i ⟨sys.shared, { own with clock := own.clock.tick.2 }⟩).goto k i
        (.appending (finish own.clock.current)))
  | appends {i : Nat} {event : TemporalEvent V HE} {own : Own}
      (htask : sys.tasks[k]? = some (i, .appending event)) (hown : sys.values[i]? = some own)
      (hroom : sys.shared.events.len < vecMax) :
      Advances sys k { (sys.put i ⟨{ sys.shared with
          eventTap := tapEvent sys.shared.eventTap event
          events := sys.shared.events.append event }, own⟩).release k i
        (afterAppend sys.shared.events.len event) with
          recorded := sys.recorded ++ [(i, event)] }
  | inserts {i : Nat} {snapshot : Snapshot} {own : Own}
      (htask : sys.tasks[k]? = some (i, .inserting snapshot)) (hown : sys.values[i]? = some own) :
      Advances sys k ((sys.put i ⟨{ sys.shared with
        snapshots := sys.shared.snapshots.insert snapshot.timestamp snapshot }, own⟩).goto k i
          .done)

theorem advance_advances [Hypergraph G V HE E] (h : sys.advance k = some sys') :
    Advances sys k sys' := by
  unfold advance at h
  split at h
  · cases h
  · rename_i i stage htask
    split at h
    · split at h
      · rename_i hfree
        cases h
        exact .acquire htask (Option.isNone_iff_eq_none.mp hfree)
      · cases h
    · obtain ⟨r, hr, rfl⟩ := Option.map_eq_some_iff.mp h
      obtain ⟨own, hown, ⟨finish, value, hx, rfl⟩ | ⟨fault, value, hx, rfl⟩⟩ := exec_cases hr
      · exact .runs htask hown hx
      · exact .fails htask hown hx
    · cases h
      exact .marks htask
    · obtain ⟨r, hr, rfl⟩ := Option.map_eq_some_iff.mp h
      obtain ⟨own, hown, ⟨t, value, hx, rfl⟩ | ⟨fault, value, hx, rfl⟩⟩ := exec_cases hr
      · cases hx
        exact .ticks htask hown
      · cases hx
    · split at h
      · rename_i hroom
        obtain ⟨r, hr, rfl⟩ := Option.map_eq_some_iff.mp h
        obtain ⟨own, hown, ⟨_, value, hx, rfl⟩ | ⟨fault, value, hx, rfl⟩⟩ := exec_cases hr
        · cases hx
          exact .appends htask hown hroom
        · cases hx
      · cases h
    · obtain ⟨r, hr, rfl⟩ := Option.map_eq_some_iff.mp h
      obtain ⟨own, hown, ⟨_, value, hx, rfl⟩ | ⟨fault, value, hx, rfl⟩⟩ := exec_cases hr
      · cases hx
        exact .inserts htask hown
      · cases hx
    · cases h

/-- What happens to the log and the clocks when a task goes on. -/
theorem advance_cases [Hypergraph G V HE E] (hl : Locked sys) (h : sys.advance k = some sys') :
    Locked sys' ∧ (Silent sys sys' ∨ (∃ i event, Ticks sys sys' k i event) ∨
      ∃ i event, Appends sys sys' k i event) := by
  cases advance_advances h with
  | acquire htask hfree =>
      exact ⟨hl.acquire htask hfree _, Or.inl ((Silent.goto htask rfl rfl).withLock _)⟩
  | @runs i call own finish value htask hown hjob =>
      have hframe := runJob_frame call.mutation ⟨sys.shared, own⟩
      rw [hjob] at hframe
      have hstamp : ∀ t, (finish t).1.timestamp = t := by
        obtain ⟨_, graph, hj, _⟩ := TemporalHypergraph.runJob_eq_ok.mp hjob
        exact call.timestamp_finish hj
      refine ⟨(hl.put value).goto htask (fun _ ↦ rfl) fun f hf ↦ ?_,
        Or.inl ((Silent.put hown hframe.1 hframe.2.1 hframe.2.2).trans (Silent.goto htask rfl rfl))⟩
      cases hf
      exact hstamp
  | @fails i call own fault value htask hown hjob =>
      have hframe := runJob_frame call.mutation ⟨sys.shared, own⟩
      rw [hjob] at hframe
      have hgoto : Silent (sys.put i value) ((sys.put i value).goto k i .done) :=
        Silent.goto htask rfl rfl
      exact ⟨(hl.put value).release htask rfl rfl,
        Or.inl ((Silent.put hown hframe.1 hframe.2.1 hframe.2.2).trans (hgoto.withLock none))⟩
  | marks htask =>
      refine ⟨hl.goto htask (fun _ ↦ rfl) fun f hf ↦ ?_, Or.inl (Silent.goto htask rfl rfl)⟩
      cases hf
      exact fun _ ↦ rfl
  | @ticks i finish own htask hown =>
      have hstamp := hl.finish k i finish htask own.clock.current
      refine ⟨(hl.put _).goto htask (fun _ ↦ rfl) (fun f hf ↦ by cases hf), Or.inr (Or.inl
        ⟨i, finish own.clock.current, ⟨⟨finish, htask⟩, rfl, rfl, rfl, ?_, ?_, ?_, ?_⟩⟩)⟩
      · rw [hstamp, clockOf, hown]
        rfl
      · change (sys.put i _).clockOf i = _
        rw [clockOf_put hown, if_pos rfl, hstamp]
        rfl
      · intro j hj
        change (sys.put i _).clockOf j = _
        rw [clockOf_put hown, if_neg hj]
      · exact goto_tasks htask
  | @appends i event own htask hown hroom =>
      have hstage : (afterAppend sys.shared.events.len event : Stage V HE E).holds = false ∧
          (afterAppend sys.shared.events.len event : Stage V HE E).stamped = false := by
        cases event <;> exact ⟨rfl, rfl⟩
      set value : TemporalHypergraph G V HE := ⟨{ sys.shared with
        eventTap := tapEvent sys.shared.eventTap event
        events := sys.shared.events.append event }, own⟩ with hvalue
      have hput : Locked (sys.put i value) := hl.put value
      have htask' : (sys.put i value).tasks[k]? = some (i, .appending event) := htask
      have hrel := hput.release htask' rfl hstage.1
      refine ⟨⟨hrel.holder, hrel.tasks, fun p hp ↦ ?_, hrel.finish⟩, Or.inr (Or.inr
        ⟨i, event, htask, hroom, rfl, rfl, rfl, clockOf_put_same hown rfl, fun k' j e hk ↦ ?_⟩)⟩
      · rcases List.mem_append.mp hp with hp | hp
        · exact hrel.recorded p hp
        · rw [List.mem_singleton.mp hp]
          exact hput.tasks k i _ htask
      · change ((sys.put i value).goto k i _).tasks[k']? = _ at hk
        rw [goto_tasks htask'] at hk
        split at hk
        · have hs := hstage.2
          rw [(Prod.mk.inj (Option.some.inj hk)).2] at hs
          cases hs
        · rename_i hkk
          exact ⟨hkk, hk⟩
  | inserts htask hown =>
      exact ⟨(hl.put _).goto htask (fun hh ↦ by cases hh) (fun f hf ↦ by cases hf),
        Or.inl ((Silent.put hown rfl rfl rfl).trans (Silent.goto htask rfl rfl))⟩

/-- What happens to the log and the clocks in one action. -/
theorem act_cases [Hypergraph G V HE E] {a : Action V HE E} (hl : Locked sys)
    (h : sys.act a = some sys') :
    Locked sys' ∧ (Silent sys sys' ∨ (∃ i, Clones sys sys' i) ∨
      (∃ k i event, Ticks sys sys' k i event) ∨ ∃ k i event, Appends sys sys' k i event) := by
  have hstart : ∀ {sys : System G V HE E} (i : Nat) (work : Work V HE E),
      Silent sys { sys with tasks := sys.tasks ++ [(i, .waiting work)] } := by
    refine fun i work ↦ ⟨rfl, rfl, rfl, fun _ ↦ rfl, fun k' i' event ↦ ?_⟩
    rw [List.getElem?_append]
    split
    · exact Iff.rfl
    · rename_i hk
      rw [List.getElem?_eq_none (Nat.le_of_not_lt hk)]
      constructor <;> intro hst
      · cases List.mem_singleton.mp (List.mem_of_getElem? hst)
      · cases hst
  cases a with
  | call i call =>
      obtain ⟨hi, rfl⟩ := act_call_eq_some h
      exact ⟨hl.start hi _, Or.inl (hstart i _)⟩
  | createSnapshot i =>
      obtain ⟨own, id, value, hown, hx, rfl⟩ := act_createSnapshot_eq_some h
      cases hx
      have hi : i < sys.values.length := (List.getElem?_eq_some_iff.mp hown).1
      exact ⟨(hl.put _).start (by rwa [System.put, List.length_set]) _,
        Or.inl ((Silent.put hown rfl rfl rfl).trans (hstart i _))⟩
  | clone i =>
      obtain ⟨own, hown, rfl⟩ := Option.map_eq_some_iff.mp h
      refine ⟨⟨hl.holder, fun k j stage hk ↦ ?_, fun p hp ↦ ?_, hl.finish⟩,
        Or.inr (Or.inl ⟨i, rfl, rfl, rfl, rfl, ?_, fun j hj ↦ ?_⟩)⟩
      · rw [List.length_append]
        exact Nat.lt_add_right _ (hl.tasks k j stage hk)
      · rw [List.length_append]
        exact Nat.lt_add_right _ (hl.recorded p hp)
      · rw [clockOf, clockOf, List.getElem?_append_right le_rfl, Nat.sub_self, hown]
        rfl
      · rw [clockOf, clockOf]
        rcases Nat.lt_or_gt_of_ne hj with hlt | hgt
        · rw [List.getElem?_append_left hlt]
        · rw [List.getElem?_eq_none (by rw [List.length_append, List.length_singleton]; omega),
            List.getElem?_eq_none (Nat.le_of_lt hgt)]
  | advance k =>
      obtain ⟨hl', hs | ⟨i, event, ht⟩ | ⟨i, event, ha⟩⟩ := advance_cases hl h
      · exact ⟨hl', Or.inl hs⟩
      · exact ⟨hl', Or.inr (Or.inr (Or.inl ⟨k, i, event, ht⟩))⟩
      · exact ⟨hl', Or.inr (Or.inr (Or.inr ⟨k, i, event, ha⟩))⟩

/-- One task goes on to some stage, and no other task moves. -/
def Moves (sys sys' : System G V HE E) (k i : Nat) : Prop :=
  sys'.values.length = sys.values.length ∧ ∃ stage, sys'.tasks = sys.tasks.set k (i, stage)

/-- A task that goes on had not ended, and no other task moves. -/
theorem advance_moves [Hypergraph G V HE E] (h : sys.advance k = some sys') :
    ∃ i stage, sys.tasks[k]? = some (i, stage) ∧ stage.isDone = false ∧ Moves sys sys' k i := by
  cases advance_advances h with
  | acquire htask => exact ⟨_, _, htask, rfl, rfl, _, rfl⟩
  | runs htask => exact ⟨_, _, htask, rfl, List.length_set, _, rfl⟩
  | fails htask => exact ⟨_, _, htask, rfl, List.length_set, _, rfl⟩
  | marks htask => exact ⟨_, _, htask, rfl, rfl, _, rfl⟩
  | ticks htask => exact ⟨_, _, htask, rfl, List.length_set, _, rfl⟩
  | appends htask => exact ⟨_, _, htask, rfl, List.length_set, _, rfl⟩
  | inserts htask => exact ⟨_, _, htask, rfl, List.length_set, _, rfl⟩

/-- What an action does to the tasks and values there are. -/
def ActsOnTasks (sys sys' : System G V HE E) : Action V HE E → Prop
  | .call i _ | .createSnapshot i => i < sys.values.length ∧
      sys'.values.length = sys.values.length ∧ sys'.shared.events = sys.shared.events ∧
      ∃ stage, sys'.tasks = sys.tasks ++ [(i, stage)]
  | .clone i => i < sys.values.length ∧ sys'.values.length = sys.values.length + 1 ∧
      sys'.shared.events = sys.shared.events ∧ sys'.tasks = sys.tasks
  | .advance k => ∃ i stage, sys.tasks[k]? = some (i, stage) ∧ stage.isDone = false ∧
      Moves sys sys' k i

/-- The tasks and values there are after an action. -/
theorem act_tasks [Hypergraph G V HE E] {a : Action V HE E} (h : sys.act a = some sys') :
    ActsOnTasks sys sys' a := by
  cases a with
  | call i call =>
      obtain ⟨hi, rfl⟩ := act_call_eq_some h
      exact ⟨hi, rfl, rfl, _, rfl⟩
  | createSnapshot i =>
      obtain ⟨own, id, value, hown, hx, rfl⟩ := act_createSnapshot_eq_some h
      cases hx
      exact ⟨(List.getElem?_eq_some_iff.mp hown).1, List.length_set, rfl, _, rfl⟩
  | clone i =>
      obtain ⟨own, hown, rfl⟩ := Option.map_eq_some_iff.mp h
      exact ⟨(List.getElem?_eq_some_iff.mp hown).1, List.length_append, rfl, rfl⟩
  | advance k => exact advance_moves h

/-- An action leaves the log and the tap alone, or appends one event and mirrors it to the
tap. -/
theorem act_log [Hypergraph G V HE E] {a : Action V HE E} (hl : Locked sys)
    (h : sys.act a = some sys') :
    Locked sys' ∧ ((sys'.shared.events = sys.shared.events ∧
        sys'.shared.eventTap = sys.shared.eventTap) ∨
      ∃ event, sys'.shared.events = sys.shared.events.append event ∧
        sys'.shared.eventTap = tapEvent sys.shared.eventTap event) := by
  obtain ⟨hl', h | ⟨_, h⟩ | ⟨_, _, _, h⟩ | ⟨_, _, event, h⟩⟩ := act_cases hl h
  · exact ⟨hl', Or.inl ⟨h.events, h.eventTap⟩⟩
  · exact ⟨hl', Or.inl ⟨h.events, h.eventTap⟩⟩
  · exact ⟨hl', Or.inl ⟨h.events, h.eventTap⟩⟩
  · exact ⟨hl', Or.inr ⟨event, h.events, h.eventTap⟩⟩

end Cases

/-! ## A task left alone -/

section Alone

variable {sys : System G V HE E} {k i : Nat} {own : Own}

theorem values_put (hown : sys.values[i]? = some own) (value : TemporalHypergraph G V HE) :
    (sys.put i value).values[i]? = some value.toOwn :=
  List.getElem?_set_self (List.getElem?_eq_some_iff.mp hown).1

theorem goto_task {stage : Stage V HE E} (h : sys.tasks[k]? = some (i, stage))
    (stage' : Stage V HE E) : (sys.goto k i stage').tasks[k]? = some (i, stage') := by
  rw [goto_tasks h, if_pos rfl]

theorem goto_put_task {stage : Stage V HE E} (h : sys.tasks[k]? = some (i, stage))
    (value : TemporalHypergraph G V HE) (stage' : Stage V HE E) :
    ((sys.put i value).goto k i stage').tasks[k]? = some (i, stage') :=
  goto_task h stage'

variable [Hypergraph G V HE E]

/-- The first step of a task takes the free lock. -/
theorem advance_waiting {work : Work V HE E} (htask : sys.tasks[k]? = some (i, .waiting work))
    (hfree : sys.lock = none) :
    ∃ sys', sys.advance k = some sys' ∧ sys'.shared = sys.shared ∧
      sys'.values[i]? = sys.values[i]? ∧ sys'.tasks[k]? = some (i, .working work) := by
  refine ⟨{ sys.goto k i (.working work) with lock := some k }, ?_, rfl, rfl, goto_task htask _⟩
  simp only [advance, htask, hfree, Option.isNone_none, if_true]

/-- The second runs the job. -/
theorem advance_working {call : Call V HE E}
    (htask : sys.tasks[k]? = some (i, .working (.mutation call)))
    (hown : sys.values[i]? = some own) {finish : Timestamp → TemporalEvent V HE × call.Reply}
    {value : TemporalHypergraph G V HE}
    (h : TemporalHypergraph.runJob call.mutation ⟨sys.shared, own⟩ = .ok finish value) :
    ∃ sys', sys.advance k = some sys' ∧ sys'.shared = value.toShared ∧
      sys'.values[i]? = some value.toOwn ∧
      sys'.tasks[k]? = some (i, .finishing fun timestamp ↦ (finish timestamp).1) := by
  refine ⟨(sys.put i value).goto k i (.finishing fun timestamp ↦ (finish timestamp).1), ?_, rfl,
    values_put hown value, goto_put_task htask value _⟩
  simp only [advance, htask, exec, hown, Option.map_some, h]

/-- The third ticks the clock. -/
theorem advance_finishing {finish : Timestamp → TemporalEvent V HE}
    (htask : sys.tasks[k]? = some (i, .finishing finish)) (hown : sys.values[i]? = some own) :
    ∃ sys', sys.advance k = some sys' ∧ sys'.shared = sys.shared ∧
      sys'.values[i]? = some { own with clock := own.clock.tick.2 } ∧
      sys'.tasks[k]? = some (i, .appending (finish own.clock.current)) := by
  refine ⟨(sys.put i ⟨sys.shared, { own with clock := own.clock.tick.2 }⟩).goto k i
    (.appending (finish own.clock.current)), ?_, rfl, values_put hown _,
    goto_put_task htask _ _⟩
  simp only [advance, htask, exec, hown, Option.map_some]
  rfl

/-- The fourth appends the event and releases the lock. -/
theorem advance_appending {event : TemporalEvent V HE}
    (htask : sys.tasks[k]? = some (i, .appending event)) (hown : sys.values[i]? = some own)
    (hroom : sys.shared.events.len < vecMax) :
    ∃ sys', sys.advance k = some sys' ∧
      sys'.shared = { sys.shared with
        eventTap := tapEvent sys.shared.eventTap event
        events := sys.shared.events.append event } ∧
      sys'.values[i]? = some own ∧ sys'.lock = none := by
  refine ⟨{ (sys.put i ⟨{ sys.shared with
      eventTap := tapEvent sys.shared.eventTap event
      events := sys.shared.events.append event }, own⟩).release k i
        (afterAppend sys.shared.events.len event) with
      recorded := sys.recorded ++ [(i, event)] }, ?_, rfl, values_put hown _, rfl⟩
  simp only [advance, htask, if_pos hroom, exec, hown, Option.map_some]
  rfl

/-- A mutation whose task is not interrupted does to its value what `mutate` does. -/
theorem acts_alone {call : Call V HE E}
    (htask : sys.tasks[k]? = some (i, .waiting (.mutation call)))
    (hown : sys.values[i]? = some own) (hfree : sys.lock = none)
    (hroom : sys.shared.events.len < vecMax) {reply : call.Reply}
    {after : TemporalHypergraph G V HE}
    (h : TemporalHypergraph.mutate call.mutation ⟨sys.shared, own⟩ = .ok reply after) :
    ∃ sys', sys.acts [.advance k, .advance k, .advance k, .advance k] = some sys' ∧
      sys'.shared = after.toShared ∧ sys'.values[i]? = some after.toOwn ∧ sys'.lock = none := by
  obtain ⟨hp, finish, graph, hj, _, rfl⟩ := TemporalHypergraph.mutate_eq_ok.mp h
  have hrun := TemporalHypergraph.runJob_eq_ok.mpr ⟨hp, graph, hj, rfl⟩
  obtain ⟨s₁, h₁, shared₁, values₁, task₁⟩ := advance_waiting htask hfree
  rw [← shared₁] at hrun
  obtain ⟨s₂, h₂, shared₂, values₂, task₂⟩ :=
    advance_working task₁ (values₁.trans hown) hrun
  obtain ⟨s₃, h₃, shared₃, values₃, task₃⟩ := advance_finishing task₂ values₂
  have hroom₃ : s₃.shared.events.len < vecMax := by rwa [shared₃, shared₂, shared₁]
  obtain ⟨s₄, h₄, shared₄, values₄, lock₄⟩ := advance_appending task₃ values₃ hroom₃
  refine ⟨s₄, ?_, ?_, values₄, lock₄⟩
  · simp [acts, act, h₁, h₂, h₃, h₄]
  · rw [shared₄, shared₃, shared₂, shared₁]
    rfl

end Alone

/-! ## Timestamps of one value -/

/-- Clocks are ahead of the events recorded through their values, also of the one stamped
and not yet appended, and no clock has ticked more often than all of them together. -/
structure Stamps (sys : System G V HE E) : Prop where
  log : sys.recorded.map Prod.snd = sys.shared.events.events
  room : sys.shared.events.len ≤ vecMax
  ticks : ∀ i t, sys.clockOf i = some t → t.val ≤ sys.shared.events.len ∨
    t.val = sys.shared.events.len + 1 ∧
      ∃ (k j : Nat) (event : TemporalEvent V HE), sys.tasks[k]? = some (j, .appending event)
  past : ∀ i t, sys.clockOf i = some t → ∀ e ∈ sys.recordedBy i, e.timestamp < t
  pending : ∀ (k i : Nat) (event : TemporalEvent V HE),
    sys.tasks[k]? = some (i, .appending event) → ∀ t, sys.clockOf i = some t →
      event.timestamp < t ∧ ∀ e ∈ sys.recordedBy i, e.timestamp < event.timestamp
  sorted : ∀ i, (sys.recordedBy i).Pairwise fun e e' ↦ e.timestamp < e'.timestamp

section Stamps

variable {sys sys' : System G V HE E} {k i : Nat} {event : TemporalEvent V HE}

theorem recordedBy_congr (h : sys'.recorded = sys.recorded) (j : Nat) :
    sys'.recordedBy j = sys.recordedBy j := by
  rw [recordedBy, recordedBy, h]

theorem recordedBy_append (h : sys'.recorded = sys.recorded ++ [(i, event)]) (j : Nat) :
    sys'.recordedBy j =
      if i = j then sys.recordedBy j ++ [event] else sys.recordedBy j := by
  rw [recordedBy, recordedBy, h, List.filter_append, List.map_append]
  by_cases hj : i = j <;> simp [hj]

theorem Stamps.clones (hl : Locked sys) (hs : Stamps sys) (h : Clones sys sys' i) :
    Stamps sys' where
  log := by rw [h.recorded, h.events]; exact hs.log
  room := by rw [h.events]; exact hs.room
  ticks j t hj := by
    rw [h.events, h.tasks]
    by_cases hn : j = sys.values.length
    · rw [hn, h.clock] at hj
      exact hs.ticks i t hj
    · rw [h.clocks j hn] at hj
      exact hs.ticks j t hj
  past j t hj e he := by
    rw [recordedBy_congr h.recorded] at he
    by_cases hn : j = sys.values.length
    · -- Nothing has been recorded through the clone.
      obtain ⟨p, hp, _⟩ := List.mem_map.mp he
      obtain ⟨hp, hpj⟩ := List.mem_filter.mp hp
      have hlt := hl.recorded p hp
      rw [of_decide_eq_true hpj, hn] at hlt
      exact absurd hlt (Nat.lt_irrefl _)
    · rw [h.clocks j hn] at hj
      exact hs.past j t hj e he
  pending k j event hk t hj := by
    rw [h.tasks] at hk
    rw [h.clocks j (Nat.ne_of_lt (hl.tasks k j _ hk))] at hj
    rw [recordedBy_congr h.recorded]
    exact hs.pending k j event hk t hj
  sorted j := by rw [recordedBy_congr h.recorded]; exact hs.sorted j

theorem Stamps.silent (hs : Stamps sys) (h : Silent sys sys') : Stamps sys' where
  log := by rw [h.recorded, h.events]; exact hs.log
  room := by rw [h.events]; exact hs.room
  ticks j t hj := by
    rw [h.clocks] at hj
    rw [h.events]
    rcases hs.ticks j t hj with hle | ⟨heq, k, j', event, hk⟩
    · exact Or.inl hle
    · exact Or.inr ⟨heq, k, j', event, (h.stamped k j' event).mpr hk⟩
  past j t hj := by
    rw [h.clocks] at hj
    rw [recordedBy_congr h.recorded]
    exact hs.past j t hj
  pending k j event hk t hj := by
    rw [h.clocks] at hj
    rw [recordedBy_congr h.recorded]
    exact hs.pending k j event ((h.stamped k j event).mp hk) t hj
  sorted j := by rw [recordedBy_congr h.recorded]; exact hs.sorted j

theorem Stamps.ticks_step (hl : Locked sys) (hs : Stamps sys) (h : Ticks sys sys' k i event) :
    Stamps sys' := by
  obtain ⟨finish, htask⟩ := h.task
  -- The task that ticks holds the lock, so no event is stamped and waiting.
  have hnone : ∀ (k' j : Nat) (e : TemporalEvent V HE),
      sys.tasks[k']? ≠ some (j, .appending e) := by
    intro k' j e hk
    have hkk := hl.eq_of_holds htask rfl hk rfl
    rw [hkk, htask] at hk
    cases hk
  have hclock : ∀ j t, sys.clockOf j = some t → t.val ≤ sys.shared.events.len := fun j t hj ↦
    (hs.ticks j t hj).resolve_right fun ⟨_, k', j', e, hk⟩ ↦ hnone k' j' e hk
  have hlt : event.timestamp.val < 2 ^ 64 - 1 := by
    have hle := hclock i _ h.stamp
    have hroom := hs.room
    unfold vecMax at hroom
    omega
  have htick : ((Clock.startingAt event.timestamp).tick.2.current).val =
      event.timestamp.val + 1 := Clock.tick_val hlt
  have hnew : event.timestamp < (Clock.startingAt event.timestamp).tick.2.current := by
    rw [Fin.lt_def, htick]
    exact Nat.lt_succ_self _
  have hstamped : sys'.tasks[k]? = some (i, .appending event) := by rw [h.tasks, if_pos rfl]
  refine ⟨?_, ?_, fun j t hj ↦ ?_, fun j t hj e he ↦ ?_, fun k' j e hk t hj ↦ ?_, fun j ↦ ?_⟩
  · rw [h.recorded, h.events]
    exact hs.log
  · rw [h.events]
    exact hs.room
  · rw [h.events]
    by_cases hi : j = i
    · rw [hi, h.clock] at hj
      cases hj
      have hle := hclock i _ h.stamp
      rw [htick]
      rcases Nat.lt_or_eq_of_le hle with hlt' | heq
      · exact Or.inl hlt'
      · exact Or.inr ⟨by rw [heq], k, i, event, hstamped⟩
    · rw [h.clocks j hi] at hj
      exact Or.inl (hclock j t hj)
  · rw [recordedBy_congr h.recorded] at he
    by_cases hi : j = i
    · rw [hi, h.clock] at hj
      cases hj
      rw [hi] at he
      exact lt_trans (hs.past i _ h.stamp e he) hnew
    · rw [h.clocks j hi] at hj
      exact hs.past j t hj e he
  · rw [recordedBy_congr h.recorded]
    rw [h.tasks] at hk
    split at hk
    · cases hk
      rw [h.clock] at hj
      cases hj
      exact ⟨hnew, hs.past i _ h.stamp⟩
    · exact absurd hk (hnone k' j e)
  · rw [recordedBy_congr h.recorded]
    exact hs.sorted j

theorem Stamps.appends (hl : Locked sys) (hs : Stamps sys) (h : Appends sys sys' k i event) :
    Stamps sys' := by
  have hlen : sys'.shared.events.len = sys.shared.events.len + 1 := by
    rw [h.events]
    simp [EventLog.len]
  refine ⟨?_, ?_, fun j t hj ↦ ?_, fun j t hj e he ↦ ?_, fun k' j e hk ↦ ?_, fun j ↦ ?_⟩
  · rw [h.recorded, h.events, List.map_append, hs.log]
    rfl
  · rw [hlen]
    exact h.room
  · rw [h.clocks] at hj
    rw [hlen]
    rcases hs.ticks j t hj with hle | ⟨heq, _⟩
    · exact Or.inl (Nat.le_succ_of_le hle)
    · exact Or.inl (Nat.le_of_eq heq)
  · rw [h.clocks] at hj
    rw [recordedBy_append h.recorded] at he
    split at he
    · rename_i hi
      rcases List.mem_append.mp he with he | he
      · exact hs.past j t hj e he
      · rw [List.mem_singleton.mp he]
        rw [← hi] at hj
        exact (hs.pending k i event h.task t hj).1
    · exact hs.past j t hj e he
  · -- The holder has released the lock, and nobody else was stamped.
    obtain ⟨hkk, hk⟩ := h.stamped k' j e hk
    exact absurd (hl.eq_of_holds h.task rfl hk rfl) hkk
  · rw [recordedBy_append h.recorded]
    split
    · rename_i hi
      refine List.pairwise_append.mpr ⟨hs.sorted j, List.pairwise_singleton _ _, ?_⟩
      intro e he e' he'
      rw [List.mem_singleton.mp he']
      rw [← hi] at he
      obtain ⟨own, hown⟩ : ∃ t, sys.clockOf i = some t := by
        have hlt := hl.tasks k i _ h.task
        rw [clockOf, List.getElem?_eq_getElem hlt]
        exact ⟨_, rfl⟩
      exact (hs.pending k i event h.task own hown).2 e he
    · exact hs.sorted j

/-- One action keeps the stamps in order. -/
theorem Stamps.act [Hypergraph G V HE E] {a : Action V HE E} (hl : Locked sys) (hs : Stamps sys)
    (h : sys.act a = some sys') : Locked sys' ∧ Stamps sys' := by
  obtain ⟨hl', h | ⟨i, h⟩ | ⟨k, i, event, h⟩ | ⟨k, i, event, h⟩⟩ := act_cases hl h
  · exact ⟨hl', hs.silent h⟩
  · exact ⟨hl', hs.clones hl h⟩
  · exact ⟨hl', hs.ticks_step hl h⟩
  · exact ⟨hl', hs.appends hl h⟩

/-- Any number of actions keeps the stamps in order. -/
theorem Stamps.acts [Hypergraph G V HE E] {as : List (Action V HE E)} (hl : Locked sys)
    (hs : Stamps sys) (h : sys.acts as = some sys') : Locked sys' ∧ Stamps sys' := by
  induction as generalizing sys with
  | nil =>
      cases h
      exact ⟨hl, hs⟩
  | cons a as ih =>
      obtain ⟨mid, hmid, hrest⟩ := Option.bind_eq_some_iff.mp h
      obtain ⟨hl', hs'⟩ := hs.act hl hmid
      exact ih hl' hs' hrest

end Stamps

theorem stamps_ofValue (graph : G) (tap : Option (Channel (TemporalEvent V HE))) :
    Locked (ofValue (fresh graph tap) : System G V HE E) ∧
      Stamps (ofValue (fresh graph tap) : System G V HE E) := by
  have hlog : (fresh graph tap : TemporalHypergraph G V HE).events = .new := by
    cases tap <;> rfl
  have hclock : (fresh graph tap : TemporalHypergraph G V HE).clock = .new := by
    cases tap <;> rfl
  refine ⟨⟨fun _ _ _ hk ↦ (by cases hk), fun _ _ _ hk ↦ (by cases hk),
    fun _ hp ↦ (by cases hp), fun _ _ _ hk ↦ (by cases hk)⟩, ?_⟩
  refine ⟨?_, ?_, fun i t hi ↦ Or.inl ?_, fun _ _ _ _ he ↦ (by cases he),
    fun _ _ _ hk ↦ (by cases hk), fun _ ↦ List.Pairwise.nil⟩
  · change [] = (fresh graph tap : TemporalHypergraph G V HE).events.events
    rw [hlog]
    rfl
  · change (fresh graph tap : TemporalHypergraph G V HE).events.len ≤ vecMax
    rw [hlog]
    exact Nat.zero_le _
  · cases i with
    | zero =>
        change some (fresh graph tap : TemporalHypergraph G V HE).clock.current = some t at hi
        rw [hclock] at hi
        cases hi
        exact Nat.zero_le _
    | succ i => cases hi

variable [Hypergraph G V HE E]

/-- **One value, one order.**  In every interleaving of the mutations and snapshots of a
value and its clones, the events recorded through any one value have strictly increasing
timestamps in the order they were appended; so has the whole log, as long as the value has
not been cloned. -/
theorem recorded_through_one_value (graph : G) (tap : Option (Channel (TemporalEvent V HE)))
    (as : List (Action V HE E)) (fin : System G V HE E)
    (h : (ofValue (fresh graph tap)).acts as = some fin) :
    fin.recorded.map Prod.snd = fin.shared.events.events ∧
    (∀ i, ((fin.recordedBy i).map TemporalEvent.timestamp).Pairwise (· < ·)) ∧
    (fin.values.length = 1 →
      (fin.shared.events.events.map TemporalEvent.timestamp).Pairwise (· < ·)) := by
  obtain ⟨hl, hs⟩ := stamps_ofValue (E := E) graph tap
  obtain ⟨hl', hs'⟩ := hs.acts hl h
  have hsorted : ∀ i, ((fin.recordedBy i).map TemporalEvent.timestamp).Pairwise (· < ·) :=
    fun i ↦ List.pairwise_map.mpr (hs'.sorted i)
  refine ⟨hs'.log, hsorted, fun hone ↦ ?_⟩
  have hall : fin.recordedBy 0 = fin.shared.events.events := by
    rw [← hs'.log, recordedBy, List.filter_eq_self.mpr]
    intro p hp
    have hlt := hl'.recorded p hp
    rw [hone] at hlt
    exact decide_eq_true (Nat.lt_one_iff.mp hlt)
  rw [← hall]
  exact hsorted 0

end System

/-- Adding a vertex through a value and letting the task run to its end. -/
def addAlone (i k : Nat) (weight : Nat) : List (System.Action Nat Nat MapGraphError) :=
  [.call i (.addVertex weight), .advance k, .advance k, .advance k, .advance k]

/-- Two vertices are added through a value after it was cloned, and one through the clone. -/
theorem a_clone_records_out_of_order :
    ∃ fin : System (MapGraph Nat Nat) Nat Nat MapGraphError,
      (System.ofValue (start none)).acts
        (.clone 0 :: addAlone 0 0 10 ++ addAlone 0 1 11 ++ addAlone 1 2 12) = some fin ∧
      fin.shared.events.events =
        [.vertexAdded 0 0 10, .vertexAdded 1 1 11, .vertexAdded 0 2 12] ∧
      ¬ (fin.shared.events.events.map TemporalEvent.timestamp).Pairwise (· < ·) := by
  refine ⟨_, rfl, rfl, ?_⟩
  change ¬ ([0, 1, 0] : List Timestamp).Pairwise (· < ·)
  decide

/-- The same run, value by value. -/
theorem a_clone_keeps_each_order :
    ∃ fin : System (MapGraph Nat Nat) Nat Nat MapGraphError,
      (System.ofValue (fresh Hypergraph.new none)).acts
        (.clone 0 :: addAlone 0 0 10 ++ addAlone 0 1 11 ++ addAlone 1 2 12) = some fin ∧
      ((fin.recordedBy 0).map TemporalEvent.timestamp).Pairwise (· < ·) := by
  obtain ⟨fin, hfin⟩ : ∃ fin : System (MapGraph Nat Nat) Nat Nat MapGraphError,
      (System.ofValue (fresh Hypergraph.new none)).acts
        (.clone 0 :: addAlone 0 0 10 ++ addAlone 0 1 11 ++ addAlone 1 2 12) = some fin := ⟨_, rfl⟩
  exact ⟨fin, hfin, (System.recorded_through_one_value _ none _ fin hfin).2.1 0⟩

end Koalisi.Topology
