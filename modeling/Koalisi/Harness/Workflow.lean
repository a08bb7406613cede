import Koalisi.Lib.Fallible
import Koalisi.Topology.Decisions

/-!
# Running a policy over process-structured tasks

An instance has a pool of agents with a role each, and tasks that demand steps of certain
roles.  For each task the agents arrive in some order; the first one joins, the policy is
asked about the others, and then about each member whether it should leave.  What is left
of the coalition is scored.

The policy may keep state, and it may panic; so may the harness, where an index is out of
bounds or a shift overflows.  Scores are floating-point numbers.  Nothing is assumed of
their arithmetic: they are of any type with the operations that the scores are made by.
How long a call took is not modelled.
-/

namespace Koalisi.Harness

open Koalisi.Lib.Fallible
open Koalisi.Topology (U64 Decision DecisionContext)

/-! ## Instances -/

/-- An agent with a capability mask. -/
structure CapabilityAgent where
  id : Nat
  capabilities : UInt32
  trust : UInt32
deriving DecidableEq, Repr

abbrev Role := UInt8

/-- One step of a workflow: a capability bit, and the role that must perform it. -/
structure Step where
  bit : UInt8
  role : Role
deriving DecidableEq, Repr

/-- The mask of the step's bit, if it fits. -/
def Step.capabilityMask (step : Step) : Option UInt32 :=
  if step.bit.toNat < 32 then some (1 <<< step.bit.toUInt32) else none

/-- The order on steps: by bit, then by role. -/
def Step.Before (a b : Step) : Prop := a.bit < b.bit ∨ a.bit = b.bit ∧ a.role < b.role

instance (a b : Step) : Decidable (a.Before b) := inferInstanceAs (Decidable (_ ∨ _))

/-- The steps a workflow demands. -/
structure Demand where
  /-- The distinct steps, which are the keys of an ordered map. -/
  distinct : List Step
  ascending : distinct.Pairwise Step.Before
deriving DecidableEq

/-- How many distinct steps are demanded. -/
def Demand.distinctLen (demand : Demand) : Nat := demand.distinct.length

/-- One task. -/
structure WorkflowTask where
  /-- A role for each capability bit. -/
  tags : List Role
  /-- Agent indices in the order of arrival. -/
  arrival : List Nat
  demand : Demand
deriving DecidableEq

/-- An instance: a pool of agents and a list of tasks. -/
structure WorkflowInstance where
  seed : U64
  agents : List CapabilityAgent
  roles : List Role
  tasks : List WorkflowTask
  /-- Which agents performed on which task. -/
  performance : Option (List (List Bool))
deriving DecidableEq

/-- The agents that arrive are in the pool. -/
def WorkflowInstance.ValidArrivals (inst : WorkflowInstance) : Prop :=
  ∀ task ∈ inst.tasks, ∀ i ∈ task.arrival, i < inst.agents.length

/-- The signal that the policy is given about the outcome of a task. -/
inductive OutcomeSignal where
  | roleCoverage
  | performance
  | both
deriving DecidableEq, Repr

def OutcomeSignal.needsPerformance : OutcomeSignal → Bool
  | .roleCoverage => false
  | _ => true

/-- What can go wrong when an instance is run. -/
inductive WorkflowError where
  | signalNeedsPerformance (signal : OutcomeSignal)
  | performanceShape (seed : U64)
deriving DecidableEq, Repr

/-- How a run can end without a result. -/
inductive Interrupt where
  | error (error : WorkflowError)
  | panic
deriving DecidableEq, Repr

/-! ## Policies -/

/-- What a policy is told at the start of a task. -/
structure TaskStart where
  required : UInt32
  steps : List (UInt8 × UInt8)
deriving DecidableEq, Repr

/-- One final member of a coalition. -/
structure MemberOutcome where
  agentId : Nat
  performed : Bool
deriving DecidableEq, Repr

/-- A deterministic policy with its state; `none` is a panic. -/
structure Policy (σ F : Type) where
  shouldJoin : CapabilityAgent → List CapabilityAgent → DecisionContext →
    StateT σ Option (Decision F)
  shouldLeave : CapabilityAgent → List CapabilityAgent → DecisionContext →
    StateT σ Option (Decision F)
  beginTask : TaskStart → StateT σ Option Unit
  observeOutcome : UInt32 → List Bool → List MemberOutcome → StateT σ Option Unit

section Harness

variable {σ F α : Type}

/-- Call the policy. -/
def call (x : StateT σ Option α) : EStateM Interrupt σ α := fun s ↦
  match x.run s with
  | some (a, s') => .ok a s'
  | none => .error .panic s

/-- A computation that may panic. -/
def unwrap (x : Option α) : EStateM Interrupt σ α := look fun _ ↦
  match x with
  | some a => .ok a
  | none => .error .panic

/-! ## Coverage -/

/-- The loop that counts the items with a property, where finding out may panic. -/
def countM (p : α → Option Bool) (l : List α) : Option Nat :=
  l.foldlM (fun n a ↦ do return if ← p a then n + 1 else n) 0

/-- Some member of the step's role holds the step's bit. -/
def stepCovered (inst : WorkflowInstance) (members : List Nat) (step : Step) : Option Bool :=
  match step.capabilityMask with
  | none => some false
  | some mask => members.anyM fun i ↦
      if inst.roles[i]? = some step.role then do
        let agent ← inst.agents[i]?
        return agent.capabilities &&& mask ≠ 0
      else some false

/-- Whether a member performed. -/
def memberPerformed (row : List Bool) (i : Nat) : Bool := row[i]?.getD false

/-- Some member of the step's role holds the step's bit and performed. -/
def stepCoveredPerformed (inst : WorkflowInstance) (members : List Nat) (step : Step)
    (row : List Bool) : Bool :=
  match step.capabilityMask with
  | none => false
  | some mask => members.any fun i ↦
      inst.roles[i]? = some step.role &&
      (inst.agents[i]?.any fun agent ↦ agent.capabilities &&& mask ≠ 0) && memberPerformed row i

/-- The bits of the distinct steps together. -/
def requiredMask (demand : Demand) : UInt32 :=
  (demand.distinct.filterMap Step.capabilityMask).foldl (· ||| ·) 0

/-- One row of the performance draw. -/
def performanceRow (rows : Option (List (List Bool))) (t : Nat) : List Bool :=
  (rows.bind (·[t]?)).getD []

/-- The performance draw, checked to be one row per task of one entry per agent. -/
def performanceRows (inst : WorkflowInstance) (signal : OutcomeSignal) :
    Except WorkflowError (Option (List (List Bool))) :=
  match inst.performance with
  | none =>
      if signal.needsPerformance then .error (.signalNeedsPerformance signal) else .ok none
  | some rows =>
      if rows.length ≠ inst.tasks.length ∨ ∃ row ∈ rows, row.length ≠ inst.agents.length then
        .error (.performanceShape inst.seed)
      else .ok (some rows)

/-! ## Scores -/

section Scores

variable [Zero F] [NatCast F] [Mul F] [Div F]

/-- Whether a task succeeded, and how efficient its coalition was. -/
def performedTaskScore (steps performed members : Nat) : Bool × F :=
  (0 < steps && performed = steps,
    if members = 0 ∨ steps = 0 then 0 else (performed : F) / (steps : F) / (members : F))

/-- The metrics of the coalitions as they performed. -/
structure PerformanceScored (F : Type) where
  successRate : F
  meanCovEff : F
  primary : F
deriving DecidableEq, Repr

def PerformanceScored.fromSums (successes : Nat) (covEffSum : F) (nTasks : Nat) :
    PerformanceScored F :=
  let (successRate, meanCovEff) :=
    if nTasks = 0 then (0, 0) else ((successes : F) / (nTasks : F), covEffSum / (nTasks : F))
  { successRate, meanCovEff, primary := successRate * meanCovEff }

end Scores

/-- The metrics of one policy over one instance. -/
structure WorkflowResult (F : Type) where
  seed : U64
  n : Nat
  successRate : F
  meanCovEff : F
  primary : F
  /-- How many members left. -/
  churn : Nat
  performanceScored : Option (PerformanceScored F)
deriving DecidableEq, Repr

/-! ## The run -/

/-- What is summed over the tasks. -/
structure Tally (F : Type) where
  successCount : Nat
  covEffSum : F
  performedSuccessCount : Nat
  performedCovEffSum : F
  churn : Nat
deriving DecidableEq, Repr

section Run

variable (policy : Policy σ F) (agents : List CapabilityAgent) (ctx : DecisionContext)

/-- The agents of a coalition. -/
def views (members : List Nat) : EStateM Interrupt σ (List CapabilityAgent) :=
  unwrap (members.mapM (agents[·]?))

/-- Ask whether an agent joins. -/
def askJoin (members : List Nat) (candidate : Nat) : EStateM Interrupt σ (List Nat) := do
  let coalition ← views agents members
  let agent ← unwrap agents[candidate]?
  let decision ← call (policy.shouldJoin agent coalition ctx)
  return if decision.act then members ++ [candidate] else members

/-- The first arrival joins, and the others if the policy says so. -/
def joins : List Nat → EStateM Interrupt σ (List Nat)
  | [] => return []
  | first :: arrivals => arrivals.foldlM (askJoin policy agents ctx) [first]

/-- Ask whether an agent leaves, if it is a member. -/
def askLeave (acc : List Nat × Nat) (idx : Nat) : EStateM Interrupt σ (List Nat × Nat) := do
  let (members, churn) := acc
  match members.findIdx? (· = idx) with
  | none => return (members, churn)
  | some pos =>
      let coalition ← views agents members
      let agent ← unwrap agents[idx]?
      let decision ← call (policy.shouldLeave agent coalition ctx)
      return if decision.act then (members.eraseIdx pos, churn + 1) else (members, churn)

/-- One sweep in the order of arrival. -/
def leaves (arrival : List Nat) (members : List Nat) (churn : Nat) :
    EStateM Interrupt σ (List Nat × Nat) :=
  arrival.foldlM (askLeave policy agents ctx) (members, churn)

end Run

/-- Add what a task's coalition scored, and the members that left it. -/
def scoreTask [Zero F] [NatCast F] [Add F] [Div F] (inst : WorkflowInstance)
    (performance : Option (List (List Bool))) (t : Nat) (task : WorkflowTask)
    (members : List Nat) (churn : Nat) (tally : Tally F) : Option (Tally F) := do
  let dLen := task.demand.distinctLen
  let covered ← countM (stepCovered inst members) task.demand.distinct
  let completed : Bool := 0 < dLen && covered = dLen
  let covEff : F := if members.isEmpty ∨ dLen = 0 then 0
    else (covered : F) / (dLen : F) / (members.length : F)
  let tally := { tally with
    successCount := if completed then tally.successCount + 1 else tally.successCount
    covEffSum := tally.covEffSum + covEff
    churn := churn }
  if performance.isSome then
    let row := performanceRow performance t
    let performed := task.demand.distinct.countP (stepCoveredPerformed inst members · row)
    let (success, efficiency) := performedTaskScore dLen performed members.length
    return { tally with
      performedSuccessCount := tally.performedSuccessCount + success.toNat
      performedCovEffSum := tally.performedCovEffSum + efficiency }
  else return tally

/-- The success signal of each bit. -/
def perBit (inst : WorkflowInstance) (signal : OutcomeSignal)
    (performance : Option (List (List Bool))) (t : Nat) (task : WorkflowTask)
    (members : List Nat) : Option (List Bool) :=
  let size := task.tags.length
  let row := performanceRow performance t
  match signal with
  | .roleCoverage => task.demand.distinct.foldlM (fun perBit step ↦ do
      let b := step.bit.toNat
      if b < size then
        return if ← stepCovered inst members step then perBit.set b true else perBit
      else return perBit) (List.replicate size false)
  | .performance => (List.range size).mapM fun b ↦ members.anyM fun i ↦ do
      let agent ← inst.agents[i]?
      -- the mask has 32 bits to shift by
      if b < 32 then if agent.capabilities.toNat.testBit b then row[i]? else return false
      else none
  | .both => some (task.demand.distinct.foldl (fun perBit step ↦
      let b := step.bit.toNat
      if b < size && stepCoveredPerformed inst members step row then perBit.set b true
      else perBit) (List.replicate size false))

/-- What became of each member. -/
def taskMemberOutcomes (agents : List CapabilityAgent) (members : List Nat)
    (rows : Option (List (List Bool))) (t : Nat) : Option (List MemberOutcome) :=
  members.mapM fun m ↦ do
    let agent ← agents[m]?
    return { agentId := agent.id
             performed := rows.isNone || memberPerformed (performanceRow rows t) m }

section Task

variable [Zero F] [NatCast F] [Add F] [Div F]

/-- Run the policy over one task. -/
def runTask (policy : Policy σ F) (inst : WorkflowInstance) (signal : OutcomeSignal)
    (performance : Option (List (List Bool))) (tally : Tally F) (task : WorkflowTask × Nat) :
    EStateM Interrupt σ (Tally F) := do
  let (task, t) := task
  let required := requiredMask task.demand
  call (policy.beginTask ⟨required, task.demand.distinct.map fun s ↦ (s.bit, s.role)⟩)
  let ctx : DecisionContext := ⟨required⟩
  let members ← joins policy inst.agents ctx task.arrival
  let (members, churn) ← leaves policy inst.agents ctx task.arrival members tally.churn
  let tally ← unwrap (scoreTask inst performance t task members churn tally)
  let bits ← unwrap (perBit inst signal performance t task members)
  let outcomes ← unwrap (taskMemberOutcomes inst.agents members performance t)
  call (policy.observeOutcome required bits outcomes)
  return tally

variable [Mul F]

/-- The metrics of an instance whose tasks have been run. -/
def WorkflowResult.ofTally (inst : WorkflowInstance)
    (performance : Option (List (List Bool))) (tally : Tally F) : WorkflowResult F :=
  let nTasks := inst.tasks.length
  let (successRate, meanCovEff) :=
    if nTasks = 0 then (0, 0)
    else ((tally.successCount : F) / (nTasks : F), tally.covEffSum / (nTasks : F))
  { seed := inst.seed
    n := inst.agents.length
    successRate
    meanCovEff
    primary := successRate * meanCovEff
    churn := tally.churn
    performanceScored := performance.map fun _ ↦
      .fromSums tally.performedSuccessCount tally.performedCovEffSum nTasks }

/-- Run a policy over every task of an instance. -/
def runWorkflowInstance (policy : Policy σ F) (inst : WorkflowInstance) (signal : OutcomeSignal) :
    EStateM Interrupt σ (WorkflowResult F) := do
  let performance ← look fun _ ↦ (performanceRows inst signal).mapError .error
  let tally ← inst.tasks.zipIdx.foldlM (runTask policy inst signal performance)
    { successCount := 0, covEffSum := 0, performedSuccessCount := 0, performedCovEffSum := 0,
      churn := 0 }
  return .ofTally inst performance tally

end Task

end Harness

end Koalisi.Harness
