import Koalisi.Topology.Decisions
import Koalisi.Topology.Memberships

/-!
# Decisions while others act

`try_join_coalition` and `try_leave_coalition` read the members and their weights, ask a
policy, and then make the change or not.  Each read and the mutation are awaited, so between
them other holders of the graph do as they like.  A `Script` is such a call as it is written:
reads, and at its end a mutation, if any.  Left alone it is the method of `Decisions`
(`alone_tryJoinCoalition`, `alone_tryLeaveCoalition`); an `Attempt` is a script at work in a
`System`, with the steps it has taken itself.

The members the policy was asked about may be gone when the change is made, but the change
reads them again under the lock, and the lock is held until its event is appended.  So what is
reported is what the change did (`policy_gated_membership_exact`), with one exception.  When
the runtime of the mutation shuts down the caller is told `TaskCancelled`; nothing is recorded
then, but the change may have been made (`cancelled_join_changes_the_graph`), or still be
made by the executor.
-/

namespace Koalisi.Topology

open Koalisi.Lib Koalisi.Lib.Fallible Koalisi.Topology.Hypergraph

variable {G V HE E Score T : Type}

/-! ## Scripts -/

/-- A call as it is written: reads of the graph, and a mutation at its end, if any. -/
inductive Script (V HE E T : Type) where
  | returns (result : Except (Fault E) T)
  | getAgent (agent : VertexIndex) (next : V → Script V HE E T)
  | coalitionMembers (coalition : HyperedgeIndex) (next : List VertexIndex → Script V HE E T)
  /-- The value is returned once the mutation has succeeded. -/
  | mutate (call : Call V HE E) (value : T)

namespace Script

/-- Fetch the weights of members, preserving order. -/
def agentWeights : List VertexIndex → (List V → Script V HE E T) → Script V HE E T
  | [], next => next []
  | agent :: agents, next =>
      .getAgent agent fun weight ↦ agentWeights agents fun weights ↦ next (weight :: weights)

/-- Await the answer of a policy, and make the change it was asked about iff it says so. -/
def applyAnswer (answer : Option (Decision Score)) (call : Call V HE E) :
    Script V HE E (Decision Score) :=
  match answer with
  | none => .returns (.error .panic)
  | some decision => if decision.act then .mutate call decision else .returns (.ok decision)

/-- Consult a policy about whether an agent should join a coalition, and apply the join
iff the policy says so. -/
def tryJoinCoalition (agent : VertexIndex) (coalition : HyperedgeIndex)
    (policy : CoalitionDecisionPolicy V Score) (ctx : DecisionContext) :
    Script V HE E (Decision Score) :=
  .getAgent agent fun agentWeight ↦
    .coalitionMembers coalition fun members ↦
      agentWeights (members.filter (· ≠ agent)) fun weights ↦
        applyAnswer (policy.shouldJoin agentWeight weights ctx)
          (CoalitionManager.joinCoalition agent coalition)

/-- Consult a policy about whether an agent should leave a coalition, and apply the leave
iff the policy says so. -/
def tryLeaveCoalition [Zero Score] (agent : VertexIndex) (coalition : HyperedgeIndex)
    (policy : CoalitionDecisionPolicy V Score) (ctx : DecisionContext) :
    Script V HE E (Decision Score) :=
  .coalitionMembers coalition fun members ↦
    agentWeights members fun weights ↦
      match CoalitionManager.memberWeight agent members weights with
      -- there is nothing to leave
      | none => .returns (.ok { act := false, score := 0 })
      | some none => .returns (.error .panic)
      | some (some agentView) =>
          applyAnswer (policy.shouldLeave agentView weights ctx)
            (CoalitionManager.leaveCoalition agent coalition)

/-- What a script does while nobody else acts. -/
def alone [Hypergraph G V HE E] :
    Script V HE E T → EStateM (Fault E) (TemporalHypergraph G V HE) T
  | .returns result => look fun _ ↦ result
  | .getAgent agent next => do
      let weight ← CoalitionManager.getAgent agent
      alone (next weight)
  | .coalitionMembers coalition next => do
      let members ← CoalitionManager.coalitionMembers coalition
      alone (next members)
  | .mutate call value => do
      let _ ← TemporalHypergraph.mutate call.mutation
      return value

section Alone

variable [Hypergraph G V HE E]

theorem alone_agentWeights (agents : List VertexIndex) (next : List V → Script V HE E T) :
    (agentWeights agents next).alone =
      (CoalitionManager.agentWeights agents >>= fun weights ↦ (next weights).alone :
        EStateM (Fault E) (TemporalHypergraph G V HE) T) := by
  induction agents generalizing next with
  | nil => rfl
  | cons agent agents ih =>
      rw [CoalitionManager.agentWeights, List.mapM_cons, bind_assoc]
      change (CoalitionManager.getAgent agent >>= fun weight ↦ _) = _
      congr 1
      funext weight
      rw [ih, bind_assoc]
      rfl

theorem alone_applyAnswer (answer : Option (Decision Score)) (call : Call V HE E) :
    (applyAnswer answer call).alone =
      (CoalitionManager.consult answer >>= CoalitionManager.applyDecision call :
        EStateM (Fault E) (TemporalHypergraph G V HE) (Decision Score)) := by
  cases answer with
  | none => rfl
  | some decision =>
      funext self
      rw [bind_def]
      change _ = CoalitionManager.applyDecision call decision self
      rw [applyAnswer, CoalitionManager.applyDecision]
      cases decision.act <;> rfl

/-- Left alone, the script of a join is the join. -/
theorem alone_tryJoinCoalition (agent : VertexIndex) (coalition : HyperedgeIndex)
    (policy : CoalitionDecisionPolicy V Score) (ctx : DecisionContext) :
    (tryJoinCoalition agent coalition policy ctx).alone =
      (CoalitionManager.tryJoinCoalition agent coalition policy ctx :
        EStateM (Fault E) (TemporalHypergraph G V HE) (Decision Score)) := by
  refine bind_congr fun agentWeight ↦ bind_congr fun members ↦ ?_
  rw [alone_agentWeights]
  exact bind_congr fun weights ↦ alone_applyAnswer _ _

/-- Left alone, the script of a leave is the leave. -/
theorem alone_tryLeaveCoalition [Zero Score] (agent : VertexIndex) (coalition : HyperedgeIndex)
    (policy : CoalitionDecisionPolicy V Score) (ctx : DecisionContext) :
    (tryLeaveCoalition agent coalition policy ctx).alone =
      (CoalitionManager.tryLeaveCoalition agent coalition policy ctx :
        EStateM (Fault E) (TemporalHypergraph G V HE) (Decision Score)) := by
  refine bind_congr fun members ↦ ?_
  rw [alone_agentWeights]
  refine bind_congr fun weights ↦ ?_
  rcases CoalitionManager.memberWeight agent members weights with _ | _ | agentView
  · rfl
  · rfl
  · exact alone_applyAnswer _ _

end Alone

end Script

/-- The script of a change that a policy is asked about. -/
def Change.attempt [Zero Score] (coalition : HyperedgeIndex)
    (policy : CoalitionDecisionPolicy V Score) (ctx : DecisionContext) :
    Change → Script V HE E (Decision Score)
  | .join agent => .tryJoinCoalition agent coalition policy ctx
  | .leave agent => .tryLeaveCoalition agent coalition policy ctx

/-! ## Attempts -/

/-- The job a task leaves to the executor when it is dropped, if it has handed it one that has
not run. -/
def Stage.orphan : Stage V HE E → Option (Call V HE E)
  | .working (.mutation call) => some call
  | _ => none

/-- What the mutation of a task returns, if its next step ends it. -/
def System.reply [Hypergraph G V HE E] (sys : System G V HE E) (k : Nat) :
    Option (Except (Fault E) Unit) :=
  match sys.tasks[k]? with
  | some (i, .working (.mutation call)) =>
      match sys.exec i (TemporalHypergraph.runJob call.mutation) with
      | some (.error fault _) => some (.error fault)
      | _ => none
  | some (_, .appending _) => some (.ok ())
  | _ => none

/-- Where a call stands. -/
inductive Standing (V HE E T : Type) where
  | script (script : Script V HE E T)
  /-- It awaits the reply of a task, to return a value. -/
  | awaiting (k : Nat) (value : T)
  /-- Its task was cancelled, and maybe a job is left to the executor. -/
  | cancelled (orphan : Option (Call V HE E))

/-- What a call has returned, if it has. -/
def Standing.result : Standing V HE E T → Option (Except (Fault E) T)
  | .script (.returns result) => some result
  | .cancelled _ => some (.error (.err .taskCancelled))
  | _ => none

/-- A call at work in a system. -/
structure Attempt (G V HE E T : Type) where
  system : System G V HE E
  /-- The value it was made through. -/
  value : Nat
  standing : Standing V HE E T
  /-- The system before and after each step the call has taken. -/
  own : List (System G V HE E × System G V HE E)

namespace Attempt

/-- A call that is made through a value. -/
def start (system : System G V HE E) (value : Nat) (script : Script V HE E T) :
    Attempt G V HE E T where
  system := system
  value := value
  standing := .script script
  own := []

/-- The call takes a step. -/
def goes (x : Attempt G V HE E T) (system : System G V HE E) (standing : Standing V HE E T) :
    Attempt G V HE E T :=
  { x with system := system, standing := standing, own := x.own ++ [(x.system, system)] }

/-- The call reads the graph, and goes on with what it has read. -/
def reads {R : Type} (x : Attempt G V HE E T)
    (read : EStateM (Fault E) (TemporalHypergraph G V HE) R) (next : R → Script V HE E T) :
    Option (Attempt G V HE E T) :=
  (x.system.exec x.value read).map fun
    | .ok r sys => x.goes sys (.script (next r))
    | .error fault sys => x.goes sys (.script (.returns (.error fault)))

/-- What can happen while a call is at work. -/
inductive Move (V HE E : Type) where
  /-- The call goes on. -/
  | own
  /-- Another holder does something. -/
  | other (action : System.Action V HE E)
  /-- The runtime the call spawns its mutation on shuts down. -/
  | shutdown

/-- An action that would be a step of the call. -/
def awaits (x : Attempt G V HE E T) : System.Action V HE E → Bool
  | .advance k => match x.standing with
    | .awaiting k' _ => k = k'
    | _ => false
  | _ => false

section Steps

variable [Hypergraph G V HE E]

/-- The next step of the call, if it can go on. -/
def ownStep (x : Attempt G V HE E T) : Option (Attempt G V HE E T) :=
  match x.standing with
  | .script (.returns _) => none
  | .script (.getAgent agent next) => x.reads (CoalitionManager.getAgent agent) next
  | .script (.coalitionMembers coalition next) =>
      x.reads (CoalitionManager.coalitionMembers coalition) next
  | .script (.mutate call value) =>
      (x.system.act (.call x.value call)).map fun sys ↦
        x.goes sys (.awaiting x.system.tasks.length value)
  | .awaiting k value =>
      (x.system.advance k).map fun sys ↦ x.goes sys (match x.system.reply k with
        | none => .awaiting k value
        | some (.ok ()) => .script (.returns (.ok value))
        | some (.error fault) => .script (.returns (.error fault)))
  | .cancelled none => none
  -- the executor runs the job, and nobody takes its output
  | .cancelled (some call) =>
      (x.system.exec x.value (TemporalHypergraph.runJob call.mutation)).map fun
        | .ok _ sys => x.goes sys (.cancelled none)
        | .error _ sys => x.goes sys (.cancelled none)

/-- The shutdown drops the task of the mutation, with the lock if it holds it; a task spawned
later does not start. -/
def shutdown (x : Attempt G V HE E T) : Option (Attempt G V HE E T) :=
  match x.standing with
  | .script (.mutate _ _) => some (x.goes x.system (.cancelled none))
  | .awaiting k _ => x.system.tasks[k]?.map fun (i, stage) ↦
      x.goes (if stage.holds then x.system.release k i .done else x.system.goto k i .done)
        (.cancelled stage.orphan)
  | _ => none

/-- One move, if it is possible. -/
def step (x : Attempt G V HE E T) : Move V HE E → Option (Attempt G V HE E T)
  | .own => x.ownStep
  | .other action =>
      if x.awaits action then none
      else (x.system.act action).map fun sys ↦ { x with system := sys }
  | .shutdown => x.shutdown

/-- Moves one after the other. -/
def run (moves : List (Move V HE E)) (x : Attempt G V HE E T) : Option (Attempt G V HE E T) :=
  moves.foldlM step x

end Steps

end Attempt

/-! ## What a call has done -/

/-- The members are as the change wants them. -/
def Change.Holds : Change → List VertexIndex → Prop
  | .join agent, members => agent ∈ members
  | .leave agent, members => agent ∉ members

theorem Change.holds_apply (change : Change) (members : List VertexIndex) :
    change.Holds (change.apply members) := by
  cases change with
  | join agent =>
      change agent ∈ if agent ∈ members then members else members ++ [agent]
      split
      · assumption
      · exact List.mem_append_right _ (List.mem_singleton_self agent)
  | leave agent =>
      intro hm
      have hne : decide (agent ≠ agent) = true := (List.mem_filter.mp hm).2
      exact of_decide_eq_true hne rfl

namespace Attempt

/-- A step that changes nothing: not the graph or its lock, the log, the snapshots, the tap,
the clocks and counters of the values, nor what was recorded through which. -/
structure Idle (sys sys' : System G V HE E) : Prop where
  shared : sys'.shared = sys.shared
  values : sys'.values = sys.values
  recorded : sys'.recorded = sys.recorded

/-- No step changes anything. -/
def Untouched (own : List (System G V HE E × System G V HE E)) : Prop :=
  ∀ p ∈ own, Idle p.1 p.2

/-- No step records anything. -/
def Unrecorded (own : List (System G V HE E × System G V HE E)) : Prop :=
  ∀ p ∈ own, p.2.shared.events = p.1.shared.events

theorem Untouched.unrecorded {own : List (System G V HE E × System G V HE E)}
    (h : Untouched own) : Unrecorded own := fun p hp ↦ by rw [(h p hp).shared]

theorem Untouched.concat {own : List (System G V HE E × System G V HE E)}
    {sys sys' : System G V HE E} (h : Untouched own) (hi : Idle sys sys') :
    Untouched (own ++ [(sys, sys')]) := by
  intro p hp
  rcases List.mem_append.mp hp with hp | hp
  · exact h p hp
  · rw [List.mem_singleton.mp hp]
    exact hi

theorem Unrecorded.concat {own : List (System G V HE E × System G V HE E)}
    {sys sys' : System G V HE E} (h : Unrecorded own)
    (he : sys'.shared.events = sys.shared.events) : Unrecorded (own ++ [(sys, sys')]) := by
  intro p hp
  rcases List.mem_append.mp hp with hp | hp
  · exact h p hp
  · rw [List.mem_singleton.mp hp]
    exact he

variable [Hypergraph G V HE E]

/-- One step, the last, records an event: an update of the members to what the change wants,
and that is what the graph holds then. -/
def RecordsOnce (change : Change) (h : HyperedgeIndex)
    (own : List (System G V HE E × System G V HE E)) : Prop :=
  ∃ before sys sys' t old new, own = before ++ [(sys, sys')] ∧ Unrecorded before ∧
    sys'.shared.events = sys.shared.events.append (.hyperedgeVerticesUpdated t h old new) ∧
    getHyperedgeVertices h sys'.shared.graph = .ok new ∧ change.Holds new

/-- What a call has done is what it returns. -/
def Exact (change : Change) (h : HyperedgeIndex) (result : Except (Fault E) (Decision Score))
    (own : List (System G V HE E × System G V HE E)) : Prop :=
  match result with
  | .ok decision => if decision.act then RecordsOnce change h own else Untouched own
  | .error _ => Untouched own

end Attempt

/-- A script whose mutation, if it gets to one, is a change that a decision asks for. -/
def Script.Gated (change : Change) (h : HyperedgeIndex) :
    Script V HE E (Decision Score) → Prop
  | .returns (.ok decision) => decision.act = false
  | .returns (.error _) => True
  | .getAgent _ next => ∀ weight, (next weight).Gated change h
  | .coalitionMembers _ next => ∀ members, (next members).Gated change h
  | .mutate call decision => call = change.call h ∧ decision.act = true

section Gated

variable {change : Change} {h : HyperedgeIndex}

theorem Script.gated_agentWeights (agents : List VertexIndex)
    {next : List V → Script V HE E (Decision Score)}
    (hnext : ∀ weights, (next weights).Gated change h) :
    (agentWeights agents next).Gated change h := by
  induction agents generalizing next with
  | nil => exact hnext []
  | cons agent agents ih => exact fun weight ↦ ih fun weights ↦ hnext (weight :: weights)

theorem Script.gated_applyAnswer (answer : Option (Decision Score)) :
    (applyAnswer answer (change.call h) : Script V HE E (Decision Score)).Gated change h := by
  cases answer with
  | none => trivial
  | some decision =>
      rw [applyAnswer]
      cases hact : decision.act with
      | true => exact ⟨rfl, hact⟩
      | false => exact hact

theorem Change.gated_attempt [Zero Score] (change : Change)
    (policy : CoalitionDecisionPolicy V Score) (ctx : DecisionContext) :
    (change.attempt h policy ctx : Script V HE E (Decision Score)).Gated change h := by
  cases change with
  | join agent =>
      refine fun agentWeight members ↦ Script.gated_agentWeights _ fun weights ↦ ?_
      exact (Script.gated_applyAnswer _ : Script.Gated (.join agent) h _)
  | leave agent =>
      refine fun members ↦ Script.gated_agentWeights _ fun weights ↦ ?_
      rcases CoalitionManager.memberWeight agent members weights with _ | _ | agentView
      · rfl
      · trivial
      · exact (Script.gated_applyAnswer _ : Script.Gated (.leave agent) h _)

end Gated

/-! ## What one move keeps -/

section System

variable {sys sys' : System G V HE E} {k i : Nat} {stage : Stage V HE E}

theorem System.put_self {own : Own} (hown : sys.values[i]? = some own) :
    sys.put i ⟨sys.shared, own⟩ = sys := by
  obtain ⟨hi, rfl⟩ := List.getElem?_eq_some_iff.mp hown
  change { sys with values := sys.values.set i sys.values[i] } = sys
  rw [List.set_getElem_self]

/-- A look changes nothing. -/
theorem System.exec_still {x : EStateM (Fault E) (TemporalHypergraph G V HE) T} (hx : Still x)
    {r : EStateM.Result (Fault E) (System G V HE E) T} (h : sys.exec i x = some r) :
    (∃ a, r = .ok a sys) ∨ ∃ fault, r = .error fault sys := by
  obtain ⟨own, hown, ⟨a, value, hr, rfl⟩ | ⟨fault, value, hr, rfl⟩⟩ := exec_cases h
  · rw [hx.eq_of_ok hr, put_self hown]
    exact Or.inl ⟨a, rfl⟩
  · rw [hx.eq_of_error hr, put_self hown]
    exact Or.inr ⟨fault, rfl⟩

variable [Hypergraph G V HE E]

/-- While a task holds the lock, nobody else changes the graph. -/
theorem System.act_graph {a : System.Action V HE E} (hl : sys.Locked)
    (htask : sys.tasks[k]? = some (i, stage)) (hholds : stage.holds = true)
    (ha : ∀ k', a = .advance k' → k' ≠ k) (h : sys.act a = some sys') :
    sys'.shared.graph = sys.shared.graph := by
  cases a with
  | call j call =>
      obtain ⟨-, rfl⟩ := act_call_eq_some h
      rfl
  | createSnapshot j =>
      obtain ⟨own, id, value, hown, hx, rfl⟩ := act_createSnapshot_eq_some h
      cases hx
      rfl
  | clone j =>
      obtain ⟨own, hown, rfl⟩ := Option.map_eq_some_iff.mp h
      rfl
  | advance k' =>
      have hne : k' ≠ k := ha k' rfl
      cases advance_advances h with
      | runs htask' _ _ => exact absurd (hl.eq_of_holds htask hholds htask' rfl) hne
      | fails htask' _ _ => exact absurd (hl.eq_of_holds htask hholds htask' rfl) hne
      | _ => rfl

/-- A task does not move while others act. -/
theorem System.act_task {a : System.Action V HE E} (htask : sys.tasks[k]? = some (i, stage))
    (ha : ∀ k', a = .advance k' → k' ≠ k) (h : sys.act a = some sys') :
    sys'.tasks[k]? = some (i, stage) := by
  have hk : k < sys.tasks.length := (List.getElem?_eq_some_iff.mp htask).1
  have htasks := act_tasks h
  cases a with
  | call j call =>
      obtain ⟨_, _, _, _, htasks⟩ := htasks
      rw [htasks, List.getElem?_append_left hk]
      exact htask
  | createSnapshot j =>
      obtain ⟨_, _, _, _, htasks⟩ := htasks
      rw [htasks, List.getElem?_append_left hk]
      exact htask
  | clone j =>
      rw [htasks.2.2.2]
      exact htask
  | advance k' =>
      obtain ⟨_, _, _, _, _, _, htasks⟩ := htasks
      rw [htasks, List.getElem?_set_ne (ha k' rfl)]
      exact htask

end System

namespace Attempt

/-- What is known of a call whose mutation stands at a stage. -/
def Underway [Hypergraph G V HE E] (change : Change) (h : HyperedgeIndex)
    (own : List (System G V HE E × System G V HE E)) (sys : System G V HE E) :
    Stage V HE E → Prop
  | .waiting work => work = .mutation (change.call h) ∧ Untouched own
  | .working work => work = .mutation (change.call h) ∧ Untouched own
  | .finishing finish => Unrecorded own ∧ ∃ old new, change.Holds new ∧
      getHyperedgeVertices h sys.shared.graph = .ok new ∧
      ∀ t, finish t = .hyperedgeVerticesUpdated t h old new
  | .appending event => Unrecorded own ∧ ∃ t old new, change.Holds new ∧
      getHyperedgeVertices h sys.shared.graph = .ok new ∧
      event = .hyperedgeVerticesUpdated t h old new
  | _ => False

/-- What holds of a call at every point of a run. -/
def Sound [Hypergraph G V HE E] (change : Change) (h : HyperedgeIndex)
    (x : Attempt G V HE E (Decision Score)) : Prop :=
  match x.standing with
  | .script (.returns result) => Exact change h result x.own
  | .script script => x.system.Locked ∧ script.Gated change h ∧ Untouched x.own
  | .awaiting k decision => x.system.Locked ∧ decision.act = true ∧
      ∃ stage, x.system.tasks[k]? = some (x.value, stage) ∧
        Underway change h x.own x.system stage
  | .cancelled _ => Unrecorded x.own

section Sound

variable [Hypergraph G V HE E] {change : Change} {h : HyperedgeIndex}
variable {x x' : Attempt G V HE E (Decision Score)} {sys : System G V HE E}

/-- A script that has changed nothing so far is sound. -/
theorem sound_script {script : Script V HE E (Decision Score)}
    (hstanding : x.standing = .script script) (hl : x.system.Locked)
    (hg : script.Gated change h) (hu : Untouched x.own) : x.Sound change h := by
  rw [Sound, hstanding]
  cases script with
  | returns result =>
      cases result with
      | ok decision =>
          have hact : decision.act = false := hg
          change if decision.act then RecordsOnce change h x.own else Untouched x.own
          rw [hact, if_neg Bool.false_ne_true]
          exact hu
      | error fault => exact hu
  | _ => exact ⟨hl, hg, hu⟩

/-- A read changes nothing. -/
theorem sound_read {x : Attempt G V HE E (Decision Score)} {R : Type}
    {read : EStateM (Fault E) (TemporalHypergraph G V HE) R} (hread : Still read)
    {next : R → Script V HE E (Decision Score)} (hl : x.system.Locked)
    (hg : ∀ r, (next r).Gated change h) (hu : Untouched x.own)
    (hx : x.reads read next = some x') : x'.Sound change h := by
  obtain ⟨r, hr, rfl⟩ := Option.map_eq_some_iff.mp hx
  have hown := hu.concat (⟨rfl, rfl, rfl⟩ : Idle x.system x.system)
  rcases System.exec_still hread hr with ⟨a, rfl⟩ | ⟨fault, rfl⟩
  · exact sound_script rfl hl (hg a) hown
  · exact sound_script rfl hl trivial hown

/-- An action of another holder. -/
theorem Sound.other {action : System.Action V HE E} (hs : x.Sound change h)
    (hawaits : x.awaits action = false) (hact : x.system.act action = some sys) :
    ({ x with system := sys } : Attempt G V HE E (Decision Score)).Sound change h := by
  obtain ⟨system, value, standing, own⟩ := x
  cases standing with
  | script script =>
      cases script with
      | returns result => exact hs
      | _ => exact ⟨(System.act_cases hs.1 hact).1, hs.2⟩
  | cancelled orphan => exact hs
  | awaiting k decision =>
      obtain ⟨hl, hdecided, stage, htask, hunder⟩ := hs
      have hother : ∀ k', action = .advance k' → k' ≠ k := by
        rintro k' rfl
        exact of_decide_eq_false hawaits
      refine ⟨(System.act_cases hl hact).1, hdecided, stage,
        System.act_task htask hother hact, ?_⟩
      cases stage with
      | waiting work => exact hunder
      | working work => exact hunder
      | finishing finish =>
          rw [Underway] at hunder ⊢
          rw [System.act_graph hl htask rfl hother hact]
          exact hunder
      | appending event =>
          rw [Underway] at hunder ⊢
          rw [System.act_graph hl htask rfl hother hact]
          exact hunder
      | _ => exact hunder

/-- The runtime of the mutation shuts down. -/
theorem Sound.shutdown (hs : x.Sound change h) (hx : x.shutdown = some x') :
    x'.Sound change h := by
  rw [Sound] at hs
  unfold Attempt.shutdown at hx
  split at hx
  · rename_i call decision hstanding
    rw [hstanding] at hs
    cases hx
    exact hs.2.2.unrecorded.concat rfl
  · rename_i k decision hstanding
    rw [hstanding] at hs
    obtain ⟨_, _, stage, htask, hunder⟩ := hs
    obtain ⟨⟨i, stage'⟩, htask', rfl⟩ := Option.map_eq_some_iff.mp hx
    cases htask.symm.trans htask'
    have hn : Unrecorded x.own := by
      cases stage with
      | waiting work => exact hunder.2.unrecorded
      | working work => exact hunder.2.unrecorded
      | finishing finish => exact hunder.1
      | appending event => exact hunder.1
      | _ => exact absurd hunder id
    refine hn.concat ?_
    split <;> rfl
  · cases hx

variable [LawfulHypergraph G]

/-- The job of a change that succeeds has made it. -/
theorem underway_of_job {g g' : G}
    {finish : Timestamp → TemporalEvent V HE × (change.call h : Call V HE E).Reply}
    (hj : ((change.call h : Call V HE E).mutation :
      Mutation G V HE E (change.call h : Call V HE E).Reply) g = .ok finish g') :
    ∃ old new, change.Holds new ∧ getHyperedgeVertices h g' = .ok new ∧
      ∀ t, (finish t).1 = .hyperedgeVerticesUpdated t h old new := by
  obtain ⟨old, hold⟩ : ∃ old, getHyperedgeVertices h g = .ok old := by
    revert finish
    rw [Change.call_eq]
    intro finish hj
    obtain ⟨_, hj, _⟩ := mutation_eq_ok.mp hj
    obtain ⟨old, hr, _⟩ := bind_read_eq_ok.mp hj
    exact ⟨old, hr⟩
  obtain ⟨_, hmembers, hevent⟩ := change_ok (membersOf_eq_some.mpr hold) hj
  exact ⟨old, _, change.holds_apply old, membersOf_eq_some.mp hmembers, hevent⟩

/-- The mutation goes on. -/
theorem sound_advance {k : Nat} {decision : Decision Score}
    (hstanding : x.standing = .awaiting k decision) (hs : x.Sound change h)
    (hadv : x.system.advance k = some sys) :
    (x.goes sys (match x.system.reply k with
      | none => .awaiting k decision
      | some (.ok ()) => .script (.returns (.ok decision))
      | some (.error fault) => .script (.returns (.error fault)))).Sound change h := by
  rw [Sound, hstanding] at hs
  obtain ⟨hl, hact, stage, htask, hunder⟩ := hs
  have hl' : sys.Locked := (System.advance_cases hl hadv).1
  cases System.advance_advances hadv with
  | @acquire i work htask' hfree =>
      cases htask.symm.trans htask'
      obtain ⟨rfl, hu⟩ := hunder
      have hreply : x.system.reply k = none := by simp only [System.reply, htask]
      rw [hreply]
      exact ⟨hl', hact, _, System.goto_task htask _, rfl, hu.concat ⟨rfl, rfl, rfl⟩⟩
  | @runs i call own finish value htask' hown hjob =>
      cases htask.symm.trans htask'
      obtain ⟨hwork, hu⟩ := hunder
      cases hwork
      have hreply : x.system.reply k = none := by
        simp only [System.reply, htask, System.exec, hown, Option.map_some, hjob]
      obtain ⟨_, graph, hj, rfl⟩ := TemporalHypergraph.runJob_eq_ok.mp hjob
      rw [hreply]
      exact ⟨hl', hact, _, System.goto_put_task htask _ _, hu.unrecorded.concat rfl,
        underway_of_job hj⟩
  | @fails i call own fault value htask' hown hjob =>
      cases htask.symm.trans htask'
      obtain ⟨hwork, hu⟩ := hunder
      cases hwork
      have hreply : x.system.reply k = some (.error fault) := by
        simp only [System.reply, htask, System.exec, hown, Option.map_some, hjob]
      rw [hreply, (change.calm h).idle hjob, System.put_self hown]
      exact hu.concat ⟨rfl, rfl, rfl⟩
  | marks htask' =>
      cases htask.symm.trans htask'
      cases hunder.1
  | @ticks i finish own htask' hown =>
      cases htask.symm.trans htask'
      obtain ⟨hn, old, new, hholds, hmembers, hevent⟩ := hunder
      have hreply : x.system.reply k = none := by simp only [System.reply, htask]
      rw [hreply]
      exact ⟨hl', hact, _, System.goto_put_task htask _ _, hn.concat rfl, _, old, new, hholds,
        hmembers, hevent _⟩
  | @appends i event own htask' hown hroom =>
      cases htask.symm.trans htask'
      obtain ⟨hn, t, old, new, hholds, hmembers, rfl⟩ := hunder
      have hreply : x.system.reply k = some (.ok ()) := by simp only [System.reply, htask]
      rw [hreply]
      change if decision.act then RecordsOnce change h _ else Untouched _
      rw [hact, if_pos rfl]
      exact ⟨x.own, x.system, _, t, old, new, rfl, hn, rfl, hmembers, hholds⟩
  | inserts htask' =>
      cases htask.symm.trans htask'
      exact absurd hunder id

/-- A step of the call itself. -/
theorem Sound.own (hs : x.Sound change h) (hx : x.ownStep = some x') : x'.Sound change h := by
  have hsound := hs
  rw [Sound] at hs
  unfold ownStep at hx
  split at hx
  · cases hx
  · rename_i agent next hstanding
    rw [hstanding] at hs
    exact sound_read (CoalitionManager.still_getAgent agent) hs.1 hs.2.1 hs.2.2 hx
  · rename_i coalition next hstanding
    rw [hstanding] at hs
    exact sound_read (CoalitionManager.still_coalitionMembers coalition) hs.1 hs.2.1 hs.2.2 hx
  · rename_i call decision hstanding
    rw [hstanding] at hs
    obtain ⟨hl, ⟨rfl, hact⟩, hu⟩ := hs
    obtain ⟨sys, hact', rfl⟩ := Option.map_eq_some_iff.mp hx
    have hl' := (System.act_cases hl hact').1
    simp only [System.act] at hact'
    split at hact'
    · cases hact'
      refine ⟨hl', hact, .waiting (.mutation (change.call h)), ?_, rfl,
        hu.concat ⟨rfl, rfl, rfl⟩⟩
      change (x.system.tasks ++ _)[x.system.tasks.length]? = _
      rw [List.getElem?_append_right le_rfl, Nat.sub_self]
      rfl
    · cases hact'
  · rename_i k decision hstanding
    obtain ⟨sys, hadv, rfl⟩ := Option.map_eq_some_iff.mp hx
    exact sound_advance hstanding hsound hadv
  · cases hx
  · rename_i call hstanding
    rw [hstanding] at hs
    obtain ⟨r, hr, rfl⟩ := Option.map_eq_some_iff.mp hx
    have hrun : ∀ self : TemporalHypergraph G V HE,
        (finalState (TemporalHypergraph.runJob call.mutation self)).events = self.events :=
      fun self ↦ (System.runJob_frame _ self).1
    obtain ⟨own, hown, ⟨a, value, hv, rfl⟩ | ⟨fault, value, hv, rfl⟩⟩ := System.exec_cases hr
    · have he := hrun ⟨x.system.shared, own⟩
      rw [hv] at he
      exact Unrecorded.concat hs he
    · have he := hrun ⟨x.system.shared, own⟩
      rw [hv] at he
      exact Unrecorded.concat hs he

/-- Every move keeps a call sound. -/
theorem Sound.step {move : Move V HE E} (hs : x.Sound change h)
    (hx : x.step move = some x') : x'.Sound change h := by
  cases move with
  | own => exact hs.own hx
  | other action =>
      rw [Attempt.step] at hx
      split at hx
      · cases hx
      · rename_i hawaits
        obtain ⟨sys, hact, rfl⟩ := Option.map_eq_some_iff.mp hx
        exact hs.other (Bool.eq_false_iff.mpr hawaits) hact
  | shutdown => exact hs.shutdown hx

theorem Sound.run {moves : List (Move V HE E)} (hs : x.Sound change h)
    (hx : x.run moves = some x') : x'.Sound change h :=
  foldlM_inv (P := fun x ↦ x.Sound change h) (fun _ _ _ _ hs hx ↦ hs.step hx) hs hx

end Sound

/-! ## What is reported is what was done -/

section Runs

variable [Hypergraph G V HE E]

/-- A call whose runtime does not shut down is not cancelled. -/
theorem not_cancelled_of_step {x x' : Attempt G V HE E T} {move : Move V HE E}
    (hmove : move ≠ .shutdown) (hx : ∀ orphan, x.standing ≠ .cancelled orphan)
    (hstep : x.step move = some x') (orphan : Option (Call V HE E)) :
    x'.standing ≠ .cancelled orphan := by
  have hreads : ∀ {R : Type} {read : EStateM (Fault E) (TemporalHypergraph G V HE) R}
      {next : R → Script V HE E T}, x.reads read next = some x' →
        x'.standing ≠ .cancelled orphan := by
    intro R read next hr hc
    obtain ⟨r, _, rfl⟩ := Option.map_eq_some_iff.mp hr
    cases r <;> cases hc
  cases move with
  | shutdown => exact absurd rfl hmove
  | other action =>
      rw [step] at hstep
      split at hstep
      · cases hstep
      · obtain ⟨sys, _, rfl⟩ := Option.map_eq_some_iff.mp hstep
        exact hx orphan
  | own =>
      change x.ownStep = some x' at hstep
      unfold ownStep at hstep
      split at hstep
      · cases hstep
      · exact hreads hstep
      · exact hreads hstep
      · obtain ⟨sys, _, rfl⟩ := Option.map_eq_some_iff.mp hstep
        exact fun hc ↦ nomatch hc
      · rename_i k value _
        obtain ⟨sys, _, rfl⟩ := Option.map_eq_some_iff.mp hstep
        intro hc
        rcases hreply : x.system.reply k with _ | _ | _ <;> rw [hreply] at hc <;> cases hc
      · cases hstep
      · rename_i call hstanding
        exact absurd hstanding (hx _)

theorem not_cancelled_of_run {x x' : Attempt G V HE E T} {moves : List (Move V HE E)}
    (hmoves : .shutdown ∉ moves) (hx : ∀ orphan, x.standing ≠ .cancelled orphan)
    (hrun : x.run moves = some x') : ∀ orphan, x'.standing ≠ .cancelled orphan :=
  foldlM_inv (P := fun x : Attempt G V HE E T ↦ ∀ orphan, x.standing ≠ .cancelled orphan)
    (fun _ hmove _ _ hx hstep ↦
      not_cancelled_of_step (fun he ↦ hmoves (he ▸ hmove)) hx hstep) hx hrun

/-- **Policy-gated membership is exact.**  In every system and whatever other holders do
meanwhile: a join or a leave that was decided on and returned `Ok` has recorded one event,
with its last step, after which the agent is, or is not, a member; and one that returned
`Ok` without acting, or an error, has recorded no event and changed nothing.  The only
exception is `TaskCancelled`, which a shutdown of the mutation's runtime gives: nothing was
recorded then, but the change may have been made. -/
theorem policy_gated_membership_exact [LawfulHypergraph G] [Zero Score] (graph : G)
    (tap : Option (Channel (TemporalEvent V HE))) (before : List (System.Action V HE E))
    (sys : System G V HE E) (value : Nat) (change : Change) (coalition : HyperedgeIndex)
    (policy : CoalitionDecisionPolicy V Score) (ctx : DecisionContext)
    (moves : List (Move V HE E)) (fin : Attempt G V HE E (Decision Score))
    (result : Except (Fault E) (Decision Score))
    (hbefore : (System.ofValue (fresh graph tap)).acts before = some sys)
    (hrun : (start sys value (change.attempt coalition policy ctx)).run moves = some fin)
    (hresult : fin.standing.result = some result) :
    (result ≠ .error (.err .taskCancelled) → Exact change coalition result fin.own) ∧
    (.shutdown ∉ moves → Exact change coalition result fin.own) ∧
    (result = .error (.err .taskCancelled) → Unrecorded fin.own) := by
  obtain ⟨hl₀, hs₀⟩ := System.stamps_ofValue (E := E) graph tap
  have hl : sys.Locked := (hs₀.acts hl₀ hbefore).1
  have hstart : (start sys value (change.attempt coalition policy ctx)).Sound change coalition :=
    sound_script rfl hl (change.gated_attempt policy ctx) fun _ hp ↦ absurd hp List.not_mem_nil
  have hsound := hstart.run hrun
  rw [Sound] at hsound
  cases hstanding : fin.standing with
  | awaiting k decision =>
      rw [hstanding] at hresult
      cases hresult
  | cancelled orphan =>
      rw [hstanding] at hresult hsound
      cases hresult
      refine ⟨fun hne ↦ absurd rfl hne, fun hmoves ↦ ?_, fun _ ↦ hsound⟩
      have hstart : ∀ o, (start sys value (change.attempt coalition policy ctx)).standing ≠
          .cancelled o := fun o hc ↦ nomatch hc
      exact absurd hstanding (not_cancelled_of_run hmoves hstart hrun orphan)
  | script script =>
      rw [hstanding] at hresult hsound
      cases script with
      | returns result' =>
          cases hresult
          refine ⟨fun _ ↦ hsound, fun _ ↦ hsound, ?_⟩
          rintro rfl
          exact Untouched.unrecorded hsound
      | _ => cases hresult

end Runs

/-- A policy that always acts. -/
def eager : CoalitionDecisionPolicy Nat Nat where
  shouldJoin _ _ _ := some ⟨true, 1⟩
  shouldLeave _ _ _ := some ⟨true, 1⟩

/-- The first of two agents forms a coalition on its own, in a value that has been cloned. -/
def coalitionOfOne : List (System.Action Nat Nat MapGraphError) :=
  Roster.foundingRun ++ [.advance 2, .advance 2, .advance 2]

/-- While the second agent asks to join, the clone lets it join first. -/
def overtaken : List (Move Nat Nat MapGraphError) :=
  [.own, .own, .own, .other (.call 1 (CoalitionManager.joinCoalition 1 0)), .other (.advance 3),
    .own, .other (.advance 3), .other (.advance 3), .other (.advance 3), .own, .own, .own, .own]

/-- A join of an agent that has become a member in the meantime is recorded once. -/
theorem policy_gated_membership_exact_overtaken :
    ∃ (sys : System (MapGraph Nat Nat) Nat Nat MapGraphError)
      (fin : Attempt (MapGraph Nat Nat) Nat Nat MapGraphError (Decision Nat)),
      (System.ofValue (fresh Hypergraph.new none)).acts coalitionOfOne = some sys ∧
      (start sys 0 ((Change.join 1).attempt 0 eager ⟨0⟩)).run overtaken = some fin ∧
      fin.standing.result = some (.ok ⟨true, 1⟩) ∧ RecordsOnce (.join 1) 0 fin.own := by
  obtain ⟨sys, fin, hsys, hfin, hresult⟩ :
      ∃ (sys : System (MapGraph Nat Nat) Nat Nat MapGraphError)
        (fin : Attempt (MapGraph Nat Nat) Nat Nat MapGraphError (Decision Nat)),
        (System.ofValue (fresh Hypergraph.new none)).acts coalitionOfOne = some sys ∧
        (start sys 0 ((Change.join 1).attempt 0 eager ⟨0⟩)).run overtaken = some fin ∧
        fin.standing.result = some (.ok ⟨true, 1⟩) := ⟨_, _, rfl, rfl, rfl⟩
  refine ⟨sys, fin, hsys, hfin, hresult, ?_⟩
  exact (policy_gated_membership_exact _ none coalitionOfOne sys 0 (.join 1) 0 eager ⟨0⟩ overtaken
    fin _ hsys hfin hresult).1 (fun he ↦ nomatch he)

/-- The runtime shuts down between the job of the join and its event: the caller is told of an
error, and the graph has changed. -/
theorem cancelled_join_changes_the_graph :
    ¬ ∀ (moves : List (Move Nat Nat MapGraphError))
      (sys : System (MapGraph Nat Nat) Nat Nat MapGraphError)
      (fin : Attempt (MapGraph Nat Nat) Nat Nat MapGraphError (Decision Nat))
      (result : Except (Fault MapGraphError) (Decision Nat)),
      (System.ofValue (fresh Hypergraph.new none)).acts coalitionOfOne = some sys →
      (start sys 0 ((Change.join 1).attempt 0 eager ⟨0⟩)).run moves = some fin →
      fin.standing.result = some result → Exact (.join 1) 0 result fin.own := by
  intro hall
  have huntouched := hall [.own, .own, .own, .own, .own, .own, .shutdown] _ _ _ rfl rfl rfl
  have hidle := huntouched _ (List.mem_of_getElem? (i := 5) rfl)
  have hmembers := congrArg (fun s : Shared (MapGraph Nat Nat) Nat Nat ↦
    getHyperedgeVertices 0 s.graph) hidle.shared
  cases hmembers

end Attempt

end Koalisi.Topology
