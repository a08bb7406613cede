import Koalisi.Topology.Clones
import Koalisi.Topology.Coalitions

/-!
# Who belongs to a coalition

Joins and leaves of one coalition are asked for through any of the values that share its
graph, and their tasks interleave with each other and with whatever else is done to the
graph that spares the coalition.  A `Roster` keeps beside a `System` which change each
task was asked for, and the changes whose jobs have succeeded.

The job of a change reads the members and writes them back in one step, so the members
are what the successful changes made of the founding ones, one after the other; and the
lock is held from the job to the append, so the log has them in this order
(`no_lost_update`).
-/

namespace Koalisi.Topology

open Koalisi.Lib Koalisi.Lib.Fallible Koalisi.Topology.Hypergraph

variable {G V HE E T R : Type}

/-! ## Calls that spare a coalition -/

/-- The members before and after, if the event is an update of the members of a hyperedge. -/
def TemporalEvent.memberUpdate (h : HyperedgeIndex) :
    TemporalEvent V HE → Option (List VertexIndex × List VertexIndex)
  | .hyperedgeVerticesUpdated _ index oldVertices newVertices =>
      if index = h then some (oldVertices, newVertices) else none
  | _ => none

/-- A call that does not concern the members of a hyperedge, and whose mutator, if it has one,
does not panic. -/
def Call.Spares (h : HyperedgeIndex) : Call V HE E → Prop
  | .addVertex _ => True
  | .removeVertex _ => True
  | .updateVertexWeight _ _ => True
  | .updateHyperedgeWeight _ _ => True
  | .removeHyperedge index => index ≠ h
  | .updateHyperedgeVertices index _ => index ≠ h
  | .updateHyperedgeVerticesTry index mutator =>
      index ≠ h ∧ ∀ members, mutator members ≠ .error .panic
  | .reverseHyperedge index => index ≠ h
  | .joinHyperedges indices => h ∉ indices
  | .contractHyperedgeVertices index _ _ => index ≠ h
  | .addHyperedge _ _ => False
  | .clearHyperedges => False
  | .clear => False

section Spares

variable {h : HyperedgeIndex}

variable [Hypergraph G V HE E] [LawfulHypergraph G] {g g' : G} {call : Call V HE E}

/-- A call that spares a coalition leaves its members alone, and records no update of them. -/
theorem Call.Spares.keeps (hs : call.Spares h)
    {finish : Timestamp → TemporalEvent V HE × call.Reply}
    (hc : (call.mutation : Mutation G V HE E call.Reply) g = .ok finish g') :
    (state g').membersOf h = (state g).membersOf h ∧
      ∀ t, (finish t).1.memberUpdate h = none := by
  obtain ⟨-, heffect⟩ := call.effect_finish hc 0
  rw [heffect]
  cases call with
  | addHyperedge => exact absurd hs id
  | clearHyperedges => exact absurd hs id
  | clear => exact absurd hs id
  | joinHyperedges indices =>
      obtain ⟨_, hj, rfl⟩ := mutation_eq_ok.mp hc
      obtain ⟨target, g₁, hw, hk⟩ := bind_write_eq_ok.mp hj
      obtain ⟨sources, hsources, hk⟩ := bind_pureTry_eq_ok.mp hk
      obtain ⟨new, _, hp⟩ := bind_read_eq_ok.mp hk
      obtain ⟨rfl, rfl⟩ := pure_eq_ok.mp hp
      obtain ⟨rest, rfl⟩ := List.head?_eq_some_iff.mp
        (LawfulHypergraph.joinHyperedges_ok indices g g₁ target hw).1
      rw [sliceFromOne_ok hsources]
      have hne : target ≠ h := fun he ↦ hs (List.mem_cons.mpr (Or.inl he.symm))
      have hrest : h ∉ rest := fun hm ↦ hs (List.mem_cons_of_mem _ hm)
      refine ⟨?_, fun _ ↦ rfl⟩
      change ((GraphState.dropHyperedges _ (rest.filter (· ≠ target))).setMembers target
        new).membersOf h = _
      rw [GraphState.membersOf_setMembers_of_ne hne,
        GraphState.membersOf_dropHyperedges_of_not_mem fun hm ↦ hrest (List.mem_of_mem_filter hm)]
  | removeHyperedge index =>
      obtain ⟨_, _, rfl⟩ := mutation_eq_ok.mp hc
      refine ⟨GraphState.membersOf_dropHyperedges_of_not_mem fun hm ↦ ?_, fun _ ↦ rfl⟩
      exact hs (List.mem_singleton.mp hm).symm
  | updateHyperedgeVertices index new =>
      obtain ⟨_, _, rfl⟩ := mutation_eq_ok.mp hc
      exact ⟨GraphState.membersOf_setMembers_of_ne hs _, fun _ ↦ if_neg hs⟩
  | updateHyperedgeVerticesTry index mutator =>
      obtain ⟨_, _, rfl⟩ := mutation_eq_ok.mp hc
      exact ⟨GraphState.membersOf_setMembers_of_ne hs.1 _, fun _ ↦ if_neg hs.1⟩
  | reverseHyperedge index =>
      obtain ⟨_, _, rfl⟩ := mutation_eq_ok.mp hc
      exact ⟨GraphState.membersOf_setMembers_of_ne hs _, fun _ ↦ rfl⟩
  | contractHyperedgeVertices index vs v =>
      obtain ⟨_, _, rfl⟩ := mutation_eq_ok.mp hc
      exact ⟨GraphState.membersOf_setMembers_of_ne hs _, fun _ ↦ rfl⟩
  | updateHyperedgeWeight index w =>
      obtain ⟨_, _, rfl⟩ := mutation_eq_ok.mp hc
      exact ⟨GraphState.membersOf_setWeight _, fun _ ↦ rfl⟩
  | _ =>
      obtain ⟨_, _, rfl⟩ := mutation_eq_ok.mp hc
      exact ⟨rfl, fun _ ↦ rfl⟩

end Spares

/-! ## Jobs that do not panic -/

/-- A job that never panics. -/
def Calm (job : Job G E T) : Prop := ∀ g g', job g ≠ .error .panic g'

section Calm

theorem calm_mapError (x : EStateM E G T) : Calm (mapError Job.ofHypergraphError x) := by
  intro g g' h
  obtain ⟨e, _, he⟩ := mapError_eq_error.mp h
  cases he

theorem calm_pureTry {x : Except (Fault E) T} (h : x ≠ .error .panic) :
    Calm (Job.pureTry x : Job G E T) := fun _ _ hg ↦ h (look_eq_error.mp hg).1

theorem calm_pure (a : T) : Calm (pure a : Job G E T) := fun _ _ h ↦ pure_ne_error h

/-- What follows a job need only be calm where the job can lead. -/
theorem Calm.bind {x : Job G E T} {f : T → Job G E R} (hx : Calm x)
    (hf : ∀ g a g', x g = .ok a g' → ∀ g'', f a g' ≠ .error .panic g'') : Calm (x >>= f) := by
  intro g g'' h
  rcases bind_eq_error.mp h with h | ⟨a, g', ha, h⟩
  · exact hx g g'' h
  · exact hf g a g' ha g'' h

/-- Read, then write, then return. -/
theorem calm_read_write {f : G → Except E T} {x : T → EStateM E G R} {T' : Type}
    {r : T → R → T'} :
    Calm (do let a ← Job.read f; let b ← Job.write (x a); return r a b : Job G E T') :=
  (calm_mapError _).bind fun _ a g' _ ↦ (calm_mapError (x a)).bind
    (fun _ b g'' _ ↦ calm_pure (r a b) g'') g'

theorem calm_mutation {job : Job G E T} {finish : Timestamp → T → TemporalEvent V HE × R}
    (h : Calm job) : Calm (mutation job finish) :=
  h.bind fun _ _ g' _ ↦ calm_pure _ g'

/-- An update of the members is calm if its mutator is. -/
theorem calm_updateHyperedgeVerticesTry [Hypergraph G V HE E] (h : HyperedgeIndex)
    {mutator : List VertexIndex → Except (Fault E) (List VertexIndex)}
    (hm : ∀ members, mutator members ≠ .error .panic) :
    Calm (TemporalHypergraph.updateHyperedgeVerticesTry h mutator : Mutation G V HE E Unit) :=
  calm_mutation <| (calm_mapError _).bind fun _ old g' _ ↦
    (calm_pureTry (hm old)).bind (fun _ new g'' _ ↦ (calm_mapError _).bind
      (fun _ _ g₃ _ ↦ calm_pure (old, new) g₃) g'') g'

theorem Call.Spares.calm [Hypergraph G V HE E] [AtomicHypergraph G] {call : Call V HE E}
    {h : HyperedgeIndex} (hs : call.Spares h) :
    Calm (call.mutation : Mutation G V HE E call.Reply) := by
  cases call with
  | addHyperedge => exact absurd hs id
  | clearHyperedges => exact absurd hs id
  | clear => exact absurd hs id
  | addVertex w =>
      refine calm_mutation fun _ _ h ↦ ?_
      cases h
  | removeVertex v => exact calm_mutation calm_read_write
  | updateVertexWeight v w => exact calm_mutation calm_read_write
  | removeHyperedge index =>
      exact calm_mutation <| (calm_mapError _).bind fun _ _ g' _ ↦ calm_read_write g'
  | updateHyperedgeWeight index w => exact calm_mutation calm_read_write
  | updateHyperedgeVertices index vs => exact calm_mutation calm_read_write
  | updateHyperedgeVerticesTry index mutator => exact calm_updateHyperedgeVerticesTry index hs.2
  | reverseHyperedge index =>
      exact calm_mutation <| (calm_mapError _).bind fun _ old g' _ ↦
        (calm_mapError _).bind (fun _ _ g'' _ ↦ (calm_mapError _).bind
          (fun _ new g₃ _ ↦ calm_pure (old, new) g₃) g'') g'
  | joinHyperedges indices =>
      refine calm_mutation <| (calm_mapError _).bind fun g target g' hw g'' ↦ ?_
      -- a join that succeeded had an index to slice away
      have hlen : 1 ≤ indices.length := Nat.le_of_lt
        (AtomicHypergraph.joinHyperedges_readable indices g target g' (mapError_eq_ok.mp hw)).1
      have hslice : (TemporalHypergraph.sliceFromOne indices : Except (Fault E) _) ≠
          .error .panic := by
        rw [TemporalHypergraph.sliceFromOne, if_pos hlen]
        intro hslice
        cases hslice
      exact (calm_pureTry hslice).bind (fun _ sources g₂ _ ↦ (calm_mapError _).bind
        (fun _ new g₃ _ ↦ calm_pure (target, sources, new) g₃) g₂) g' g''
  | contractHyperedgeVertices index vs v => exact calm_mutation calm_read_write

theorem Change.calm [Hypergraph G V HE E] (change : Change) (h : HyperedgeIndex) :
    Calm ((change.call h : Call V HE E).mutation :
      Mutation G V HE E (change.call h : Call V HE E).Reply) := by
  rw [Change.call_eq]
  refine calm_updateHyperedgeVerticesTry h fun members hm ↦ ?_
  rw [Change.mutator] at hm
  split at hm <;> cases hm

/-- A call that fails without a panic has changed nothing. -/
theorem Calm.idle [Hypergraph G V HE E] [AtomicHypergraph G] {call : Call V HE E}
    (hcalm : Calm (call.mutation : Mutation G V HE E call.Reply))
    {self self' : TemporalHypergraph G V HE} {fault : Fault E}
    (hjob : TemporalHypergraph.runJob call.mutation self = .error fault self') : self' = self := by
  rcases TemporalHypergraph.runJob_eq_error hjob with
    ⟨_, _, rfl⟩ | ⟨graph, hj, ⟨_, _, rfl⟩ | ⟨rfl, _⟩⟩
  · rfl
  · rw [call.atomic _ _ graph hj]
  · exact absurd hj (hcalm _ graph)

end Calm

/-! ## A coalition and the changes of it -/

namespace Stage

/-- The update of the members of a hyperedge that a task is about to append, if it is one. -/
def update (h : HyperedgeIndex) :
    Stage V HE E → Option (List VertexIndex × List VertexIndex)
  | .finishing finish => (finish 0).memberUpdate h
  | .appending event => event.memberUpdate h
  | _ => none

/-- A task that goes from the first stage to the second has run its job, with success. -/
def ran : Stage V HE E → Stage V HE E → Bool
  | .working _, .finishing _ => true
  | _, _ => false

end Stage

/-- A system, and what is done to a coalition in it. -/
structure Roster (G V HE E : Type) where
  system : System G V HE E
  /-- For each task, the change of the coalition it was asked for, if any. -/
  asked : List (Option Change)
  /-- The changes that have succeeded, in the order in which they held the lock. -/
  succeeded : List Change

namespace Roster

/-- A coalition that has just been formed. -/
def formed (system : System G V HE E) : Roster G V HE E where
  system := system
  asked := system.tasks.map fun _ ↦ none
  succeeded := []

/-- What can happen. -/
inductive Action (V HE E : Type) where
  /-- A change of the coalition is asked for through a value. -/
  | change (i : Nat) (change : Change)
  /-- Anything else. -/
  | act (action : System.Action V HE E)

/-- The change a task was asked for, if it was asked for one and its job has just
succeeded. -/
def succeededBy (r : Roster G V HE E) (system : System G V HE E) (k : Nat) : List Change :=
  match r.system.tasks[k]?, system.tasks[k]? with
  | some (_, stage), some (_, stage') =>
      if stage.ran stage' then r.asked[k]?.join.toList else []
  | _, _ => []

/-- One action, if it is possible. -/
def step [Hypergraph G V HE E] (h : HyperedgeIndex) (r : Roster G V HE E) :
    Action V HE E → Option (Roster G V HE E)
  | .change i change => do
      let system ← r.system.act (.call i (change.call h))
      return { r with system := system, asked := r.asked ++ [some change] }
  | .act action => do
      let system ← r.system.act action
      return match action with
        | .call _ _ => { r with system := system, asked := r.asked ++ [none] }
        | .createSnapshot _ => { r with system := system, asked := r.asked ++ [none] }
        | .clone _ => { r with system := system }
        | .advance k =>
            { r with system := system, succeeded := r.succeeded ++ r.succeededBy system k }

/-- Actions one after the other. -/
def run [Hypergraph G V HE E] (h : HyperedgeIndex) (as : List (Action V HE E))
    (r : Roster G V HE E) : Option (Roster G V HE E) :=
  as.foldlM (step h) r

/-- The calls of an action, other than changes of the coalition, spare it. -/
def Action.Spares (h : HyperedgeIndex) : Action V HE E → Prop
  | .act (.call _ call) => call.Spares h
  | _ => True

/-- The updates of the members of a hyperedge that a log has from an index on. -/
def updates (h : HyperedgeIndex) (start : Nat) (events : EventLog V HE) :
    List (List VertexIndex × List VertexIndex) :=
  (events.events.drop start).filterMap (TemporalEvent.memberUpdate h)

/-- The update that the holder of the mutation lock is about to append, if it is one. -/
def pending (h : HyperedgeIndex) (sys : System G V HE E) :
    List (List VertexIndex × List VertexIndex) :=
  (sys.lock.bind fun k ↦ sys.tasks[k]?.bind fun task ↦ task.2.update h).toList

/-- What changes do to the members, one after the other. -/
def steps (members : List VertexIndex) : List Change → List (List VertexIndex × List VertexIndex)
  | [] => []
  | change :: changes =>
      (members, change.apply members) :: steps (change.apply members) changes

theorem steps_concat (members : List VertexIndex) (changes : List Change) (change : Change) :
    steps members (changes ++ [change]) = steps members changes ++
      [(changes.foldl Change.apply members,
        change.apply (changes.foldl Change.apply members))] := by
  induction changes generalizing members with
  | nil => rfl
  | cons c changes ih =>
      change _ :: steps (c.apply members) (changes ++ [change]) = _
      rw [ih]
      rfl

theorem nodup_foldl {members : List VertexIndex} (h : members.Nodup) (changes : List Change) :
    (changes.foldl Change.apply members).Nodup := by
  induction changes generalizing members with
  | nil => exact h
  | cons c changes ih => exact ih (Change.nodup_apply h c)

/-- What a task was asked for is what it will do. -/
def Asks (h : HyperedgeIndex) (asked : Option Change) (work : Work V HE E) : Prop :=
  match asked with
  | some change => work = .mutation (change.call h)
  | none => ∀ call, work = .mutation call → call.Spares h

/-- What is kept while the calls spare the coalition. -/
structure Kept [Hypergraph G V HE E] (h : HyperedgeIndex) (founding : List VertexIndex)
    (start : Nat) (r : Roster G V HE E) : Prop where
  locked : r.system.Locked
  sound : r.system.shared.poisoned = false
  asked : r.asked.length = r.system.tasks.length
  asks : ∀ (k i : Nat) (work : Work V HE E), (r.system.tasks[k]? = some (i, .waiting work) ∨
    r.system.tasks[k]? = some (i, .working work)) → Asks h r.asked[k]?.join work
  stamp : ∀ (k i : Nat) (finish : Timestamp → TemporalEvent V HE),
    r.system.tasks[k]? = some (i, .finishing finish) →
      ∀ t, (finish t).memberUpdate h = (finish 0).memberUpdate h
  members : (state r.system.shared.graph).membersOf h =
    some (r.succeeded.foldl Change.apply founding)
  nonempty : r.succeeded.foldl Change.apply founding ≠ []
  began : start ≤ r.system.shared.events.len
  log : updates h start r.system.shared.events ++ pending h r.system = steps founding r.succeeded

section Steps

variable {h : HyperedgeIndex} {founding : List VertexIndex} {start : Nat}
variable {r : Roster G V HE E} {sys : System G V HE E} {k i : Nat} {stage stage' : Stage V HE E}

theorem pending_of_free (hfree : sys.lock = none) : pending h sys = [] := by
  rw [pending, hfree]
  rfl

/-- The holder of the lock decides what is pending. -/
theorem pending_of_holds (hl : sys.Locked) (htask : sys.tasks[k]? = some (i, stage))
    (hh : stage.holds = true) : pending h sys = (stage.update h).toList := by
  rw [pending, hl.holder k i stage htask hh, Option.bind_some, htask, Option.bind_some]

/-- What is pending stays pending if the lock stays where it is, and whatever its holder is
about to append stays what it is. -/
theorem pending_congr {sys' : System G V HE E} (hlock : sys'.lock = sys.lock)
    (htasks : ∀ k : Nat, (sys'.tasks[k]?.bind fun (task : Nat × Stage V HE E) ↦ task.2.update h) =
      sys.tasks[k]?.bind fun (task : Nat × Stage V HE E) ↦ task.2.update h) :
    pending h sys' = pending h sys := by
  rw [pending, pending, hlock]
  exact congrArg (fun f ↦ (sys.lock.bind f).toList) (funext htasks)

/-- An event that is appended to the log is the last of it. -/
theorem updates_append {events : EventLog V HE} (hs : start ≤ events.len)
    (event : TemporalEvent V HE) : updates h start (events.append event) =
      updates h start events ++ (event.memberUpdate h).toList := by
  rw [updates, updates, EventLog.events_append, List.drop_append_of_le_length hs,
    List.filterMap_append]
  cases hu : event.memberUpdate h <;> simp [hu]

/-- Only a task whose job has just run has succeeded. -/
theorem succeededBy_of (htask : r.system.tasks[k]? = some (i, stage))
    (htask' : sys.tasks[k]? = some (i, stage')) : r.succeededBy sys k =
      if stage.ran stage' then r.asked[k]?.join.toList else [] := by
  rw [succeededBy, htask, htask']

variable [Hypergraph G V HE E]

/-- A task moves on; what it does to the graph and the log must match. -/
theorem Kept.moves (hk : Kept h founding start r) (hl : sys.Locked)
    (htask : r.system.tasks[k]? = some (i, stage))
    (htasks : sys.tasks = r.system.tasks.set k (i, stage')) {changes : List Change}
    (hby : r.succeededBy sys k = changes) (hsound : sys.shared.poisoned = false)
    (hasks : ∀ work, stage' = .waiting work ∨ stage' = .working work →
      Asks h r.asked[k]?.join work)
    (hstamp : ∀ finish, stage' = .finishing finish →
      ∀ t, (finish t).memberUpdate h = (finish 0).memberUpdate h)
    (hmembers : (state sys.shared.graph).membersOf h =
      some ((r.succeeded ++ changes).foldl Change.apply founding))
    (hne : (r.succeeded ++ changes).foldl Change.apply founding ≠ [])
    (hbegan : start ≤ sys.shared.events.len)
    (hlog : updates h start sys.shared.events ++ pending h sys =
      steps founding (r.succeeded ++ changes)) :
    Kept h founding start
      { r with system := sys, succeeded := r.succeeded ++ r.succeededBy sys k } := by
  rw [hby]
  have hget : ∀ k', sys.tasks[k']? = if k' = k then some (i, stage') else r.system.tasks[k']? := by
    intro k'
    rw [htasks]
    exact System.goto_tasks htask k'
  refine ⟨hl, hsound, ?_, fun k' i' work hw ↦ ?_, fun k' i' finish hf ↦ ?_, hmembers, hne, hbegan,
    hlog⟩
  · rw [htasks, List.length_set]
    exact hk.asked
  · rw [hget] at hw
    by_cases hkk : k' = k
    · rw [if_pos hkk] at hw
      rw [hkk]
      refine hasks work (hw.imp ?_ ?_) <;>
        · intro he
          cases he
          rfl
    · rw [if_neg hkk] at hw
      exact hk.asks k' i' work hw
  · rw [hget] at hf
    split at hf
    · cases hf
      exact hstamp finish rfl
    · exact hk.stamp k' i' finish hf

/-- A task moves on without touching the graph or the log. -/
theorem Kept.silent (hk : Kept h founding start r) (hl : sys.Locked)
    (htask : r.system.tasks[k]? = some (i, stage))
    (htasks : sys.tasks = r.system.tasks.set k (i, stage'))
    (hby : r.succeededBy sys k = [])
    (hasks : ∀ work, stage' = .waiting work ∨ stage' = .working work →
      Asks h r.asked[k]?.join work)
    (hstamp : ∀ finish, stage' = .finishing finish →
      ∀ t, (finish t).memberUpdate h = (finish 0).memberUpdate h)
    (hpoisoned : sys.shared.poisoned = r.system.shared.poisoned)
    (hgraph : sys.shared.graph = r.system.shared.graph)
    (hevents : sys.shared.events = r.system.shared.events)
    (hpending : pending h sys = pending h r.system) :
    Kept h founding start
      { r with system := sys, succeeded := r.succeeded ++ r.succeededBy sys k } := by
  refine hk.moves hl htask htasks hby ?_ hasks hstamp ?_ ?_ ?_ ?_
  · rw [hpoisoned, hk.sound]
  · rw [hgraph, List.append_nil, hk.members]
  · rw [List.append_nil]
    exact hk.nonempty
  · rw [hevents]
    exact hk.began
  · rw [hevents, hpending, List.append_nil, hk.log]

/-- A task that is started was asked for what it will do. -/
theorem Kept.starts (hk : Kept h founding start r) (hl : sys.Locked) {asked : Option Change}
    {work : Work V HE E} (hasks : Asks h asked work)
    (htasks : sys.tasks = r.system.tasks ++ [(i, .waiting work)])
    (hlock : sys.lock = r.system.lock) (hpoisoned : sys.shared.poisoned = r.system.shared.poisoned)
    (hgraph : sys.shared.graph = r.system.shared.graph)
    (hevents : sys.shared.events = r.system.shared.events) :
    Kept h founding start { r with system := sys, asked := r.asked ++ [asked] } := by
  have hget : ∀ (k' i' : Nat) (st : Stage V HE E), sys.tasks[k']? = some (i', st) →
      (r.system.tasks[k']? = some (i', st) ∧ (r.asked ++ [asked])[k']? = r.asked[k']?) ∨
        (st = .waiting work ∧ (r.asked ++ [asked])[k']? = some asked) := by
    intro k' i' st hst
    rw [htasks, List.getElem?_append] at hst
    split at hst
    · rename_i hlt
      exact Or.inl ⟨hst, List.getElem?_append_left (by rw [hk.asked]; exact hlt)⟩
    · rename_i hge
      obtain ⟨hlt, he⟩ := List.getElem?_eq_some_iff.mp hst
      have heq : k' = r.asked.length := by
        rw [List.length_singleton] at hlt
        have := hk.asked
        omega
      cases List.mem_singleton.mp (List.mem_of_getElem? hst)
      exact Or.inr ⟨rfl, by rw [heq, List.getElem?_concat_length]⟩
  refine ⟨hl, hpoisoned.trans hk.sound, ?_, fun k' i' w hw ↦ ?_, fun k' i' finish hf ↦ ?_, ?_,
    hk.nonempty, ?_, ?_⟩
  · rw [htasks, List.length_append, List.length_append, hk.asked]
    rfl
  · rcases hw with hw | hw
    · rcases hget k' i' _ hw with ⟨hw, hold⟩ | ⟨he, hnew⟩
      · rw [hold]
        exact hk.asks k' i' w (Or.inl hw)
      · cases he
        rw [hnew]
        exact hasks
    · rcases hget k' i' _ hw with ⟨hw, hold⟩ | ⟨he, _⟩
      · rw [hold]
        exact hk.asks k' i' w (Or.inr hw)
      · cases he
  · rcases hget k' i' _ hf with ⟨hf, _⟩ | ⟨he, _⟩
    · exact hk.stamp k' i' finish hf
    · cases he
  · rw [hgraph]
    exact hk.members
  · rw [hevents]
    exact hk.began
  · have hpending : pending h sys = pending h r.system := by
      refine pending_congr hlock fun k' ↦ ?_
      rw [htasks, List.getElem?_append]
      split
      · rfl
      · rename_i hge
        rw [List.getElem?_eq_none (Nat.le_of_not_lt hge)]
        cases hn : [(i, (.waiting work : Stage V HE E))][k' - r.system.tasks.length]? with
        | none => rfl
        | some task =>
            rw [List.mem_singleton.mp (List.mem_of_getElem? hn)]
            rfl
    rw [hevents, hpending]
    exact hk.log

variable [LawfulHypergraph G]

/-- A job that a task has run leaves the members as the change it was asked for has them, if
any, and finishes with the event of that change. -/
theorem Kept.ran (hk : Kept h founding start r) {call : Call V HE E}
    (htask : r.system.tasks[k]? = some (i, .working (.mutation call)))
    {finish : Timestamp → TemporalEvent V HE × call.Reply} {graph : G}
    (hjob : (call.mutation : Mutation G V HE E call.Reply) r.system.shared.graph =
      .ok finish graph) :
    let changes := r.succeeded ++ r.asked[k]?.join.toList
    (state graph).membersOf h = some (changes.foldl Change.apply founding) ∧
    changes.foldl Change.apply founding ≠ [] ∧
    (∀ t, (finish t).1.memberUpdate h = (finish 0).1.memberUpdate h) ∧
    steps founding changes =
      steps founding r.succeeded ++ ((finish 0).1.memberUpdate h).toList := by
  intro changes
  have hasks := hk.asks k i _ (Or.inr htask)
  cases hasked : r.asked[k]?.join with
  | some change =>
      have hchanges : changes = r.succeeded ++ [change] := by
        change r.succeeded ++ r.asked[k]?.join.toList = _
        rw [hasked, Option.toList_some]
      rw [hasked] at hasks
      cases hasks
      obtain ⟨hne, hmembers, hevent⟩ := change_ok hk.members hjob
      have hupdate : ∀ t, (finish t).1.memberUpdate h =
          some (r.succeeded.foldl Change.apply founding,
            change.apply (r.succeeded.foldl Change.apply founding)) := by
        intro t
        rw [hevent]
        exact if_pos rfl
      rw [hchanges, List.foldl_append, steps_concat, hupdate]
      exact ⟨hmembers, hne, hupdate, rfl⟩
  | none =>
      have hchanges : changes = r.succeeded := by
        change r.succeeded ++ r.asked[k]?.join.toList = _
        rw [hasked, Option.toList_none, List.append_nil]
      rw [hasked] at hasks
      obtain ⟨hmembers, hevent⟩ := (hasks call rfl).keeps hjob
      rw [hchanges, hevent, Option.toList_none, List.append_nil]
      exact ⟨hmembers.trans hk.members, hk.nonempty, hevent, rfl⟩

/-- The job of a task does not panic. -/
theorem Kept.calm (hk : Kept h founding start r) {call : Call V HE E}
    (htask : r.system.tasks[k]? = some (i, .working (.mutation call))) :
    Calm (call.mutation : Mutation G V HE E call.Reply) := by
  have hasks := hk.asks k i _ (Or.inr htask)
  cases hasked : r.asked[k]?.join with
  | some change =>
      rw [hasked] at hasks
      cases hasks
      exact change.calm h
  | none =>
      rw [hasked] at hasks
      exact (hasks call rfl).calm

/-- A task that goes on keeps the members and the log in step. -/
theorem Kept.advance (hk : Kept h founding start r) (hadv : r.system.advance k = some sys) :
    Kept h founding start
      { r with system := sys, succeeded := r.succeeded ++ r.succeededBy sys k } := by
  have hl : sys.Locked := (System.advance_cases hk.locked hadv).1
  cases System.advance_advances hadv with
  | @acquire i work htask hfree =>
      have htask' := System.goto_task htask (.working work)
      refine hk.silent hl htask rfl (succeededBy_of htask htask') (fun w hw ↦ ?_)
        (fun f hf ↦ by cases hf) rfl rfl rfl ?_
      · rcases hw with hw | hw <;> cases hw
        exact hk.asks k i work (Or.inl htask)
      · rw [pending_of_holds hl htask' rfl, pending_of_free hfree]
        rfl
  | @runs i call own finish value htask hown hjob =>
      obtain ⟨_, graph, hj, rfl⟩ := TemporalHypergraph.runJob_eq_ok.mp hjob
      obtain ⟨hmembers, hne, hstamp, hsteps⟩ := hk.ran htask hj
      have htask' := System.goto_put_task htask
        (⟨{ r.system.shared with graph := graph }, own⟩ : TemporalHypergraph G V HE)
        (.finishing fun t ↦ (finish t).1)
      have hold : pending h r.system = [] := pending_of_holds hk.locked htask rfl
      have hlog := hk.log
      rw [hold, List.append_nil] at hlog
      refine hk.moves hl htask rfl (succeededBy_of htask htask') hk.sound (fun w hw ↦ ?_)
        (fun f hf t ↦ ?_) hmembers hne hk.began ?_
      · rcases hw with hw | hw <;> cases hw
      · cases hf
        exact hstamp t
      · rw [pending_of_holds hl htask' rfl]
        exact (congrArg (· ++ _) hlog).trans hsteps.symm
  | @fails i call own fault value htask hown hjob =>
      obtain rfl := (hk.calm htask).idle hjob
      have htask' := System.goto_put_task htask
        (⟨r.system.shared, own⟩ : TemporalHypergraph G V HE) .done
      refine hk.silent hl htask rfl (succeededBy_of htask htask') (fun w hw ↦ ?_)
        (fun f hf ↦ by cases hf) rfl rfl rfl ?_
      · rcases hw with hw | hw <;> cases hw
      · rw [pending_of_free rfl]
        exact (pending_of_holds hk.locked htask rfl).symm
  | @marks i id htask =>
      have htask' := System.goto_task htask (.finishing fun t ↦ .snapshotMarker t id)
      have hasked : r.asked[k]?.join = none := by
        have hasks := hk.asks k i _ (Or.inr htask)
        cases hj : r.asked[k]?.join with
        | none => rfl
        | some change =>
            rw [hj] at hasks
            cases hasks
      have hby := succeededBy_of htask htask'
      rw [hasked] at hby
      refine hk.silent hl htask rfl hby (fun w hw ↦ ?_) (fun f hf t ↦ ?_) rfl rfl rfl ?_
      · rcases hw with hw | hw <;> cases hw
      · cases hf
        rfl
      · rw [pending_of_holds hl htask' rfl, pending_of_holds hk.locked htask rfl]
        rfl
  | @ticks i finish own htask hown =>
      have htask' := System.goto_put_task htask
        (⟨r.system.shared, { own with clock := own.clock.tick.2 }⟩ : TemporalHypergraph G V HE)
        (.appending (finish own.clock.current))
      refine hk.silent hl htask rfl (succeededBy_of htask htask') (fun w hw ↦ ?_)
        (fun f hf ↦ by cases hf) rfl rfl rfl ?_
      · rcases hw with hw | hw <;> cases hw
      · rw [pending_of_holds hl htask' rfl, pending_of_holds hk.locked htask rfl]
        exact congrArg Option.toList (hk.stamp k i finish htask _)
  | @appends i event own htask hown hroom =>
      have htask' := System.goto_put_task htask
        (⟨{ r.system.shared with
          eventTap := tapEvent r.system.shared.eventTap event
          events := r.system.shared.events.append event }, own⟩ : TemporalHypergraph G V HE)
        (System.afterAppend r.system.shared.events.len event)
      have hby : r.succeededBy _ k = [] := succeededBy_of htask htask'
      refine hk.moves hl htask rfl hby hk.sound (fun w hw ↦ ?_) (fun f hf ↦ ?_) ?_ ?_ ?_ ?_
      · rcases hw with hw | hw <;> cases event <;> cases hw
      · cases event <;> cases hf
      · rw [List.append_nil]
        exact hk.members
      · rw [List.append_nil]
        exact hk.nonempty
      · change start ≤ (r.system.shared.events.append event).events.length
        rw [EventLog.events_append, List.length_append]
        exact Nat.le_add_right_of_le hk.began
      · -- what was pending is now the end of the log
        rw [pending_of_free rfl, List.append_nil, List.append_nil, ← hk.log,
          pending_of_holds hk.locked htask rfl]
        exact updates_append hk.began event
  | @inserts i snapshot own htask hown =>
      have htask' := System.goto_put_task htask
        (⟨{ r.system.shared with
          snapshots := r.system.shared.snapshots.insert snapshot.timestamp snapshot }, own⟩ :
          TemporalHypergraph G V HE) .done
      refine hk.silent hl htask rfl (succeededBy_of htask htask') (fun w hw ↦ ?_)
        (fun f hf ↦ by cases hf) rfl rfl rfl ?_
      · rcases hw with hw | hw <;> cases hw
      · refine pending_congr rfl fun k' ↦ ?_
        change ((r.system.tasks.set k (i, .done))[k']?.bind _) = _
        rw [List.getElem?_set]
        split
        · rename_i hkk
          rw [← hkk, htask]
          split <;> rfl
        · rfl

/-- One action that spares the coalition, or changes it, keeps the members and the log in
step. -/
theorem Kept.step (hk : Kept h founding start r) {a : Action V HE E} (ha : a.Spares h)
    {r' : Roster G V HE E} (hstep : r.step h a = some r') : Kept h founding start r' := by
  cases a with
  | change i change =>
      obtain ⟨sys, hact, hret⟩ := Option.bind_eq_some_iff.mp hstep
      cases hret
      have hl : sys.Locked := (System.act_cases hk.locked hact).1
      simp only [System.act] at hact
      split at hact
      · cases hact
        exact hk.starts hl rfl rfl rfl rfl rfl rfl
      · cases hact
  | act action =>
      obtain ⟨sys, hact, hret⟩ := Option.bind_eq_some_iff.mp hstep
      cases hret
      have hl : sys.Locked := (System.act_cases hk.locked hact).1
      cases action with
      | call i call =>
          simp only [System.act] at hact
          split at hact
          · cases hact
            refine hk.starts hl (fun call' hc ↦ ?_) rfl rfl rfl rfl rfl
            cases hc
            exact ha
          · cases hact
      | createSnapshot i =>
          obtain ⟨res, hres, he⟩ := Option.map_eq_some_iff.mp hact
          obtain ⟨own, hown, ⟨id, value, hx, rfl⟩ | ⟨fault, value, hx, rfl⟩⟩ :=
            System.exec_cases hres
          · subst he
            cases hx
            exact hk.starts hl (fun call' hc ↦ by cases hc) rfl rfl rfl rfl rfl
          · cases hx
      | clone i =>
          obtain ⟨own, hown, rfl⟩ := Option.map_eq_some_iff.mp hact
          exact ⟨hl, hk.sound, hk.asked, hk.asks, hk.stamp, hk.members, hk.nonempty, hk.began,
            hk.log⟩
      | advance k => exact hk.advance hact

/-- Any number of such actions does. -/
theorem Kept.run (hk : Kept h founding start r) {as : List (Action V HE E)}
    (has : ∀ a ∈ as, a.Spares h) {fin : Roster G V HE E} (hrun : r.run h as = some fin) :
    Kept h founding start fin :=
  foldlM_inv (fun a ha _ _ hk hstep ↦ hk.step (has a ha) hstep) hk hrun

/-- A coalition that has just been formed, by a task that still holds the lock. -/
theorem kept_formed {sys' : System G V HE E} {weight : HE} {graph : G} (hl : sys.Locked)
    (hwaiting : ∀ (k i : Nat) (call : Call V HE E),
      sys.tasks[k]? = some (i, .waiting (.mutation call)) → call.Spares h)
    (htask : sys.tasks[k]? =
      some (i, .working (.mutation (CoalitionManager.formCoalition founding weight))))
    (hform : addHyperedge founding weight sys.shared.graph = .ok h graph)
    (hsound : sys.shared.poisoned = false) (hadv : sys.advance k = some sys')
    (hne : founding ≠ []) : Kept h founding sys.shared.events.len (formed sys') := by
  have hl' : sys'.Locked := (System.advance_cases hl hadv).1
  have hjob : (CoalitionManager.formCoalition founding weight : Call V HE E).mutation
      sys.shared.graph = .ok (fun t ↦ (.hyperedgeAdded t h founding weight, h)) graph :=
    mutation_eq_ok.mpr ⟨h, Job.write_eq_ok.mpr hform, rfl⟩
  cases System.advance_advances hadv with
  | @runs i' call own finish value htask' hown hrun =>
      rw [htask] at htask'
      cases htask'
      obtain ⟨_, graph', hj, rfl⟩ := TemporalHypergraph.runJob_eq_ok.mp hrun
      cases hjob.symm.trans hj
      have hnow := System.goto_put_task htask
        (⟨{ sys.shared with graph := graph }, own⟩ : TemporalHypergraph G V HE)
        (.finishing fun t ↦ .hyperedgeAdded t h founding weight)
      have hget := @System.goto_tasks _ _ _ _ sys k i _
        (.finishing fun t ↦ .hyperedgeAdded t h founding weight) htask
      -- nobody else is past the lock
      have hother : ∀ (k' i' : Nat) (st : Stage V HE E), st.holds = true → k' ≠ k →
          sys.tasks[k']? ≠ some (i', st) :=
        fun k' i' st hh hkk hst ↦ hkk (hl.eq_of_holds htask rfl hst hh)
      refine ⟨hl', hsound, List.length_map _, fun k' i' work hw ↦ ?_, fun k' i' finish hf t ↦ ?_,
        ?_, hne, Nat.le_refl _, ?_⟩
      · change (sys.goto k i _).tasks[k']? = _ ∨ (sys.goto k i _).tasks[k']? = _ at hw
        change Asks h (List.map _ (sys.goto k i _).tasks)[k']?.join work
        rw [hget] at hw
        rw [List.getElem?_map, hget]
        by_cases hkk : k' = k
        · rw [if_pos hkk] at hw
          rcases hw with hw | hw <;> cases hw
        · rw [if_neg hkk] at hw
          rw [if_neg hkk]
          rcases hw with hw | hw
          · rw [hw]
            intro call hc
            subst hc
            exact hwaiting k' i' call hw
          · exact absurd hw (hother k' i' _ rfl hkk)
      · change (sys.goto k i _).tasks[k']? = _ at hf
        rw [hget] at hf
        by_cases hkk : k' = k
        · rw [if_pos hkk] at hf
          cases hf
          rfl
        · rw [if_neg hkk] at hf
          exact absurd hf (hother k' i' _ rfl hkk)
      · change (state graph).membersOf h = some founding
        rw [LawfulHypergraph.addHyperedge_ok founding weight _ graph h hform,
          GraphState.membersOf, GraphState.setHyperedge]
        exact congrArg (Option.map Prod.fst) (if_pos rfl)
      · change ((List.drop sys.shared.events.events.length sys.shared.events.events).filterMap _ ++
          pending h _) = []
        rw [List.drop_length]
        exact pending_of_holds hl' hnow rfl
  | fails htask' hown hrun =>
      rw [htask] at htask'
      cases htask'
      rcases TemporalHypergraph.runJob_eq_error hrun with ⟨hp, _⟩ | ⟨graph', hj, _⟩
      · exact Bool.noConfusion (hp.symm.trans hsound)
      · cases hjob.symm.trans hj
  | acquire htask' => cases htask.symm.trans htask'
  | marks htask' => cases htask.symm.trans htask'
  | ticks htask' => cases htask.symm.trans htask'
  | appends htask' => cases htask.symm.trans htask'
  | inserts htask' => cases htask.symm.trans htask'

/-- A leave whose turn comes when nobody else belongs to the coalition is refused. -/
theorem Kept.refuses (hk : Kept h founding start r) {own : Own} {agent : VertexIndex}
    (htask : r.system.tasks[k]? =
      some (i, .working (.mutation (CoalitionManager.leaveCoalition agent h))))
    (hown : r.system.values[i]? = some own)
    (halone : (r.succeeded.foldl Change.apply founding).filter (· ≠ agent) = []) :
    TemporalHypergraph.runJob
        (CoalitionManager.leaveCoalition agent h : Call V HE E).mutation
        ⟨r.system.shared, own⟩ = .error (.err .emptyCoalition) ⟨r.system.shared, own⟩ ∧
      ∃ r', r.step h (.act (.advance k)) = some r' ∧ r'.system.shared = r.system.shared ∧
        r'.succeeded = r.succeeded := by
  have hjob : (CoalitionManager.leaveCoalition agent h : Call V HE E).mutation
      r.system.shared.graph = .error (.err .emptyCoalition) r.system.shared.graph :=
    change_refused hk.members (show (Change.leave agent).apply _ = [] from halone)
  have hrun : TemporalHypergraph.runJob
      (CoalitionManager.leaveCoalition agent h : Call V HE E).mutation
      ⟨r.system.shared, own⟩ = .error (.err .emptyCoalition) ⟨r.system.shared, own⟩ := by
    unfold TemporalHypergraph.runJob
    rw [if_neg (by rw [hk.sound]; exact Bool.false_ne_true),
      show Call.mutation _ _ = _ from hjob]
  have hadv : r.system.advance k =
      some ((r.system.put i ⟨r.system.shared, own⟩).release k i .done) := by
    simp only [System.advance, htask, System.exec, hown, Option.map_some, hrun]
  have htask' := System.goto_put_task htask
    (⟨r.system.shared, own⟩ : TemporalHypergraph G V HE) .done
  have hby : r.succeededBy _ k = [] := succeededBy_of htask htask'
  refine ⟨hrun, _, Option.bind_eq_some_iff.mpr ⟨_, hadv, rfl⟩, rfl, ?_⟩
  exact (congrArg (r.succeeded ++ ·) hby).trans (List.append_nil _)

/-- A change whose turn comes and that makes no difference leaves the members alone. -/
theorem Kept.unaltered (hk : Kept h founding start r) {change : Change}
    (hsame : change.apply (r.succeeded.foldl Change.apply founding) =
      r.succeeded.foldl Change.apply founding)
    (htask : r.system.tasks[k]? = some (i, .working (.mutation (change.call h))))
    (hadv : r.system.advance k = some sys) :
    (state sys.shared.graph).membersOf h = some (r.succeeded.foldl Change.apply founding) := by
  cases System.advance_advances hadv with
  | runs htask' hown hrun =>
      rw [htask] at htask'
      cases htask'
      obtain ⟨_, graph, hj, rfl⟩ := TemporalHypergraph.runJob_eq_ok.mp hrun
      rw [← hsame]
      exact (change_ok hk.members hj).2.1
  | fails htask' hown hrun =>
      rw [htask] at htask'
      cases htask'
      rcases TemporalHypergraph.runJob_eq_error hrun with
        ⟨_, _, rfl⟩ | ⟨graph, hj, ⟨_, _, rfl⟩ | ⟨_, rfl⟩⟩
      · exact hk.members
      · rw [(change.call h : Call V HE E).atomic _ _ graph hj]
        exact hk.members
      · rw [(change.call h : Call V HE E).atomic _ _ graph hj]
        exact hk.members
  | acquire htask' => cases htask.symm.trans htask'
  | marks htask' => cases htask.symm.trans htask'
  | ticks htask' => cases htask.symm.trans htask'
  | appends htask' => cases htask.symm.trans htask'
  | inserts htask' => cases htask.symm.trans htask'

end Steps

/-- **No lost update.**  Take a coalition formed by a task from founding members that are not
empty and without duplicates, while whatever waits for the lock spares it; and let joins and
leaves of it, asked for through any of the values, interleave with each other and with
whatever else spares it.  At every point of the run its members are the fold of the
successful changes over the founding members; the log has these changes in the order of the
fold, all of them but one that the holder of the lock is about to append; the members are
not empty and without duplicates; a leave that would empty them is refused and changes
nothing; and a join of a present agent or a leave of an absent one leaves them alone. -/
theorem no_lost_update [Hypergraph G V HE E] [LawfulHypergraph G] (graph formedGraph : G)
    (tap : Option (Channel (TemporalEvent V HE))) (before : List (System.Action V HE E))
    (sys sys' : System G V HE E) (former holder : Nat) (founding : List VertexIndex) (weight : HE)
    (h : HyperedgeIndex) (as : List (Action V HE E)) (fin : Roster G V HE E)
    (hbefore : (System.ofValue (fresh graph tap)).acts before = some sys)
    (hwaiting : ∀ (k i : Nat) (call : Call V HE E),
      sys.tasks[k]? = some (i, .waiting (.mutation call)) → call.Spares h)
    (htask : sys.tasks[former]? =
      some (holder, .working (.mutation (CoalitionManager.formCoalition founding weight))))
    (hform : addHyperedge founding weight sys.shared.graph = .ok h formedGraph)
    (hsound : sys.shared.poisoned = false) (hadv : sys.advance former = some sys')
    (hne : founding ≠ []) (hnodup : founding.Nodup) (has : ∀ a ∈ as, a.Spares h)
    (hrun : (formed sys').run h as = some fin) :
    let members := fin.succeeded.foldl Change.apply founding
    let logged := updates h sys.shared.events.len fin.system.shared.events
    getHyperedgeVertices h fin.system.shared.graph = .ok members ∧
    logged ++ pending h fin.system = steps founding fin.succeeded ∧
    (fin.system.lock = none → logged = steps founding fin.succeeded) ∧
    members ≠ [] ∧ members.Nodup ∧
    (∀ (k i : Nat) (own : Own) (agent : VertexIndex), fin.system.tasks[k]? =
        some (i, .working (.mutation (CoalitionManager.leaveCoalition agent h))) →
      fin.system.values[i]? = some own → members.filter (· ≠ agent) = [] →
      TemporalHypergraph.runJob
          (CoalitionManager.leaveCoalition agent h : Call V HE E).mutation
          ⟨fin.system.shared, own⟩ = .error (.err .emptyCoalition) ⟨fin.system.shared, own⟩ ∧
        ∃ r, fin.step h (.act (.advance k)) = some r ∧
          r.system.shared = fin.system.shared ∧ r.succeeded = fin.succeeded) ∧
    (∀ (k i : Nat) (agent : VertexIndex) (r : Roster G V HE E),
      (agent ∈ members ∧ fin.system.tasks[k]? =
          some (i, .working (.mutation (CoalitionManager.joinCoalition agent h))) ∨
        agent ∉ members ∧ fin.system.tasks[k]? =
          some (i, .working (.mutation (CoalitionManager.leaveCoalition agent h)))) →
      fin.step h (.act (.advance k)) = some r →
      getHyperedgeVertices h r.system.shared.graph = .ok members) := by
  intro members logged
  obtain ⟨hl₀, hs₀⟩ := System.stamps_ofValue (E := E) graph tap
  have hl : sys.Locked := (hs₀.acts hl₀ hbefore).1
  have hk : Kept h founding sys.shared.events.len fin :=
    (kept_formed hl hwaiting htask hform hsound hadv hne).run has hrun
  refine ⟨membersOf_eq_some.mp hk.members, hk.log, fun hfree ↦ ?_, hk.nonempty,
    nodup_foldl hnodup _, fun k i own agent htask hown halone ↦ hk.refuses htask hown halone,
    fun k i agent r hwhich hstep ↦ ?_⟩
  · rw [← hk.log, pending_of_free hfree, List.append_nil]
  · obtain ⟨system, hadvance, hret⟩ := Option.bind_eq_some_iff.mp hstep
    cases hret
    rcases hwhich with ⟨hmem, htask⟩ | ⟨hmem, htask⟩
    · exact membersOf_eq_some.mp (hk.unaltered (Change.apply_join_of_mem hmem) htask hadvance)
    · exact membersOf_eq_some.mp (hk.unaltered (Change.apply_leave_of_not_mem hmem) htask hadvance)

/-- Two agents are added, the value is cloned, and the first agent is about to form a coalition
on its own. -/
def foundingRun : List (System.Action Nat Nat MapGraphError) :=
  addAlone 0 0 10 ++ addAlone 0 1 11 ++
    [.clone 0, .call 0 (CoalitionManager.formCoalition [0] 7), .advance 2]

/-- The coalition is formed and its founder asks to leave it, while the second agent is asked in
through the clone. -/
def changingRun : List (Action Nat Nat MapGraphError) :=
  [.change 1 (.join 1), .change 0 (.leave 0), .act (.advance 2), .act (.advance 2),
    .act (.advance 3), .act (.advance 3), .act (.advance 3), .act (.advance 3), .act (.advance 4),
    .act (.advance 4)]

/-- A founder that leaves once somebody else has joined. -/
theorem no_lost_update_through_a_clone :
    ∃ fin : Roster (MapGraph Nat Nat) Nat Nat MapGraphError,
      fin.succeeded = [.join 1, .leave 0] ∧
      getHyperedgeVertices 0 fin.system.shared.graph = .ok [1] := by
  obtain ⟨sys, sys', g, fin, hsys, htasks, hform, hsound, hadv, hrun, hsucceeded⟩ :
      ∃ (sys sys' : System (MapGraph Nat Nat) Nat Nat MapGraphError) (g : MapGraph Nat Nat)
        (fin : Roster (MapGraph Nat Nat) Nat Nat MapGraphError),
        (System.ofValue (fresh Hypergraph.new none)).acts foundingRun = some sys ∧
        sys.tasks = [(0, .done), (0, .done),
          (0, .working (.mutation (CoalitionManager.formCoalition [0] 7)))] ∧
        addHyperedge [0] 7 sys.shared.graph = .ok 0 g ∧ sys.shared.poisoned = false ∧
        sys.advance 2 = some sys' ∧ (formed sys').run 0 changingRun = some fin ∧
        fin.succeeded = [.join 1, .leave 0] :=
    ⟨_, _, _, _, rfl, rfl, rfl, rfl, rfl, rfl, rfl⟩
  have hwaiting : ∀ (k i : Nat) (call : Call Nat Nat MapGraphError),
      sys.tasks[k]? = some (i, .waiting (.mutation call)) → call.Spares 0 := by
    intro k i call hk
    have hmem := List.mem_of_getElem? hk
    rw [htasks] at hmem
    simp at hmem
  have hspares : ∀ a ∈ changingRun, a.Spares 0 := by
    intro a ha
    simp only [changingRun, List.mem_cons, List.not_mem_nil, or_false] at ha
    rcases ha with rfl | rfl | rfl | rfl | rfl | rfl | rfl | rfl | rfl | rfl <;> trivial
  have h := no_lost_update _ g none foundingRun sys sys' 2 0 [0] 7 0 changingRun fin hsys hwaiting
    (by rw [htasks]; rfl) hform hsound hadv (List.cons_ne_nil _ _) (List.nodup_singleton 0) hspares
    hrun
  exact ⟨fin, hsucceeded, by rw [h.1, hsucceeded]; rfl⟩

end Roster

end Koalisi.Topology
