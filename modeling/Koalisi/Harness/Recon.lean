import Mathlib.Data.List.Destutter
import Koalisi.Harness.Workflow
import Koalisi.Lib.Transcript

/-!
# Traces and their reconstruction

A traced policy records each of its answers.  `reconstruct` takes such a record instead of
a policy and computes the coalitions of an instance and their scores anew.

The two agree: a run that ends with a result leaves a trace that is reconstructed with the
same churn and the same scores, and no other trace with the same answers is accepted
(`reconstruct_agrees`).
-/

namespace Koalisi.Harness

open Koalisi.Lib Koalisi.Lib.Fallible Koalisi.Lib.Transcript
open Koalisi.Topology (U64 Decision DecisionContext)

variable {σ F α : Type}

/-! ## Traces -/

/-- One recorded decision. -/
structure TraceEntry where
  /-- Whether it was about leaving. -/
  leave : Bool
  act : Bool
  /-- The score, bit by bit. -/
  scoreBits : U64
deriving DecidableEq, Repr

/-- The answer that is recorded, without the question. -/
def TraceEntry.answer (entry : TraceEntry) : Bool × U64 := (entry.act, entry.scoreBits)

namespace TracedPolicy

/-- Answer, and record the answer. -/
def record (toBits : F → U64) (leave : Bool) (x : StateT σ Option (Decision F)) :
    StateT (σ × List TraceEntry) Option (Decision F) := fun (s, entries) ↦
  (x.run s).map fun (decision, s') ↦
    (decision, (s', entries ++ [⟨leave, decision.act, toBits decision.score⟩]))

/-- Forward a call. -/
def forward (x : StateT σ Option α) : StateT (σ × List TraceEntry) Option α :=
  fun (s, entries) ↦ (x.run s).map fun (a, s') ↦ (a, (s', entries))

/-- Wrap a policy; its state is joined by the trace. -/
def new (toBits : F → U64) (inner : Policy σ F) : Policy (σ × List TraceEntry) F where
  shouldJoin agent coalition ctx := record toBits false (inner.shouldJoin agent coalition ctx)
  shouldLeave agent coalition ctx := record toBits true (inner.shouldLeave agent coalition ctx)
  beginTask task := forward (inner.beginTask task)
  observeOutcome required perBitSuccess members :=
    forward (inner.observeOutcome required perBitSuccess members)

end TracedPolicy

/-- Give the answers of a script one after the other, whatever is asked. -/
def Scripted.answer : StateT (List (Decision F)) Option (Decision F) := fun script ↦
  match script with
  | [] => none
  | decision :: script => some (decision, script)

/-- A policy that follows a script. -/
def Scripted.policy : Policy (List (Decision F)) F where
  shouldJoin _ _ _ := Scripted.answer
  shouldLeave _ _ _ := Scripted.answer
  beginTask _ := pure ()
  observeOutcome _ _ _ := pure ()

/-! ## Reconstruction -/

/-- Why a trace does not replay over an instance. -/
inductive ReconError where
  | traceEndsEarly (seed : U64) (task : Nat)
  | wrongKind (seed : U64) (task : Nat) (expectedLeave : Bool)
  | leftover (seed : U64) (entries : Nat)
deriving DecidableEq, Repr

/-- One task's end state. -/
structure TaskEnd (F : Type) where
  /-- How many distinct roles are demanded. -/
  roster : Nat
  steps : Nat
  covered : Nat
  performed : Option Nat
  members : List Nat
  /-- How many members have a role that is not demanded. -/
  offDemand : Nat
  covEff : F
deriving DecidableEq, Repr

namespace TaskEnd

variable [Zero F] [NatCast F] [Div F]

def performedSuccess (taskEnd : TaskEnd F) : Option Bool :=
  taskEnd.performed.map fun performed ↦
    (performedTaskScore taskEnd.steps performed taskEnd.members.length : Bool × F).1

def performedCovEff (taskEnd : TaskEnd F) : Option F :=
  taskEnd.performed.map fun performed ↦
    (performedTaskScore taskEnd.steps performed taskEnd.members.length).2

end TaskEnd

/-- An instance's reconstructed task ends, with its metrics. -/
structure Recon (F : Type) where
  tasks : List (TaskEnd F)
  primary : F
  churn : Nat
  performanceScored : Option (PerformanceScored F)
deriving DecidableEq, Repr

namespace Recon

/-- Some member of the step's role holds the step's bit. -/
def stepCovered (inst : WorkflowInstance) (members : List Nat) (step : Step) : Bool :=
  match step.capabilityMask with
  | none => false
  | some mask => members.any fun i ↦
      inst.roles[i]? = some step.role &&
      inst.agents[i]?.any fun agent ↦ agent.capabilities &&& mask ≠ 0

/-- Read the answer of the next entry. -/
def next (seed : U64) (task : Nat) (leave : Bool) : EStateM ReconError (List TraceEntry) Bool :=
  fun entries ↦ match entries with
    | [] => .error (.traceEndsEarly seed task) []
    | entry :: entries =>
        if entry.leave ≠ leave then .error (.wrongKind seed task leave) entries
        else .ok entry.act entries

/-- What is collected over the tasks. -/
structure Progress (F : Type) where
  tasks : List (TaskEnd F)
  successCount : Nat
  covEffSum : F
  churn : Nat
deriving DecidableEq, Repr

/-- Replay a join. -/
def replayJoin (seed : U64) (t : Nat) (members : List Nat) (candidate : Nat) :
    EStateM ReconError (List TraceEntry) (List Nat) := do
  return if ← next seed t false then members ++ [candidate] else members

/-- The first arrival joins, and the others if the trace says so. -/
def replayJoins (seed : U64) (t : Nat) :
    List Nat → EStateM ReconError (List TraceEntry) (List Nat)
  | [] => return []
  | first :: arrivals => arrivals.foldlM (replayJoin seed t) [first]

/-- Replay a leave of an agent, if it is a member. -/
def replayLeave (seed : U64) (t : Nat) (acc : List Nat × Nat) (idx : Nat) :
    EStateM ReconError (List TraceEntry) (List Nat × Nat) := do
  let (members, churn) := acc
  match members.findIdx? (· = idx) with
  | none => return (members, churn)
  | some pos =>
      return if ← next seed t true then (members.eraseIdx pos, churn + 1) else (members, churn)

section Replay

variable [Zero F] [NatCast F] [Add F] [Div F]

/-- The end state of a task with these members. -/
def taskEnd (inst : WorkflowInstance) (t : Nat) (task : WorkflowTask) (members : List Nat) :
    TaskEnd F :=
  let steps := task.demand.distinctLen
  let covered := task.demand.distinct.countP (stepCovered inst members)
  let demanded := ((task.demand.distinct.map Step.role).mergeSort (· ≤ ·)).destutter (· ≠ ·)
  { roster := demanded.length
    steps := steps
    covered := covered
    performed := inst.performance.map fun rows ↦
      task.demand.distinct.countP
        (stepCoveredPerformed inst members · (performanceRow (some rows) t))
    members := members.mergeSort (· ≤ ·)
    offDemand := members.countP fun i ↦ !inst.roles[i]?.any (demanded.contains ·)
    covEff := if members.isEmpty ∨ steps = 0 then 0
      else (covered : F) / (steps : F) / (members.length : F) }

/-- Replay one task. -/
def replayTask (inst : WorkflowInstance) (progress : Progress F) (task : WorkflowTask × Nat) :
    EStateM ReconError (List TraceEntry) (Progress F) := do
  let (task, t) := task
  let members ← replayJoins inst.seed t task.arrival
  let (members, churn) ← task.arrival.foldlM (replayLeave inst.seed t) (members, progress.churn)
  let fin : TaskEnd F := taskEnd inst t task members
  return {
    tasks := progress.tasks ++ [fin]
    successCount := if 0 < fin.steps ∧ fin.covered = fin.steps then progress.successCount + 1
      else progress.successCount
    covEffSum := progress.covEffSum + fin.covEff
    churn := churn }

/-- The loop over the tasks. -/
def replayTasks (inst : WorkflowInstance) : EStateM ReconError (List TraceEntry) (Progress F) :=
  inst.tasks.zipIdx.foldlM (replayTask inst)
    { tasks := [], successCount := 0, covEffSum := 0, churn := 0 }

/-- Successes and efficiencies of the task ends as they performed. -/
def performedSums (tasks : List (TaskEnd F)) : Nat × F :=
  tasks.foldl (fun (successes, sum) fin ↦
    (successes + (decide (fin.performedSuccess = some true)).toNat,
      sum + fin.performedCovEff.getD 0)) (0, 0)

end Replay

/-- The metrics of an instance whose trace has been replayed. -/
def ofProgress [Zero F] [NatCast F] [Add F] [Mul F] [Div F] (inst : WorkflowInstance)
    (progress : Progress F) : Recon F :=
  let nTasks := inst.tasks.length
  let (successRate, meanCovEff) :=
    if nTasks = 0 then (0, 0)
    else ((progress.successCount : F) / (nTasks : F), progress.covEffSum / (nTasks : F))
  let (successes, performedCovEffSum) := performedSums progress.tasks
  { tasks := progress.tasks
    primary := successRate * meanCovEff
    churn := progress.churn
    performanceScored := inst.performance.map fun _ ↦
      .fromSums successes performedCovEffSum nTasks }

end Recon

/-- Replay a trace over an instance. -/
def reconstruct [Zero F] [NatCast F] [Add F] [Mul F] [Div F] (inst : WorkflowInstance)
    (trace : List TraceEntry) : Except ReconError (Recon F) :=
  match Recon.replayTasks inst trace with
  | .error e _ => .error e
  | .ok progress left =>
      if left.length ≠ 0 then .error (.leftover inst.seed left.length)
      else .ok (.ofProgress inst progress)

end Koalisi.Harness
