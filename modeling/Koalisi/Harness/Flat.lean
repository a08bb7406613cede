import Koalisi.Harness.Instance

/-!
# Running a policy over flat instances

The tasks of a flat instance require a mask and have no steps.  The agents arrive as they do
for a process-structured task; but then the members are asked one by one whether they leave,
in the order of a copy that is made of the membership before, and the coalition is scored by
the capabilities of its members together.

`workflow_refines_flat` compares the two runners.
-/

namespace Koalisi.Harness

open Koalisi.Lib.Fallible Koalisi.Lib.Masks
open Koalisi.Topology (U64 DecisionContext)

variable {σ F : Type}

/-- The outcome of a flat task is signalled by a bit for each bit of a mask. -/
def flatSignalWidth : Nat := 32

/-- The metrics of one policy over one flat instance. -/
structure InstanceResult (F : Type) where
  seed : U64
  n : Nat
  completionRate : F
  meanCovEff : F
  primary : F
  /-- How many members left. -/
  churn : Nat
deriving DecidableEq, Repr

/-- One outcome for each member. -/
def memberOutcomes (agents : List CapabilityAgent) (members : List Nat)
    (performed : Nat → Bool) : Option (List MemberOutcome) :=
  members.mapM fun m ↦ do
    let agent ← agents[m]?
    return { agentId := agent.id, performed := performed m }

namespace Flat

section Sweep

variable (policy : Policy σ F) (agents : List CapabilityAgent) (ctx : DecisionContext)

/-- Ask a member whether it leaves. -/
def askLeave (acc : List Nat × Nat) (agent : Nat) : EStateM Interrupt σ (List Nat × Nat) := do
  let (members, churn) := acc
  let coalition ← views agents members
  let view ← unwrap agents[agent]?
  let decision ← call (policy.shouldLeave view coalition ctx)
  return if decision.act then (members.filter (· ≠ agent), churn + 1) else (members, churn)

/-- One sweep over a copy of the members. -/
def leaves (members : List Nat) (churn : Nat) : EStateM Interrupt σ (List Nat × Nat) :=
  members.foldlM (askLeave policy agents ctx) (members, churn)

end Sweep

/-- What the members are capable of together. -/
def union (agents : List CapabilityAgent) (members : List Nat) : Option UInt32 :=
  members.foldlM (fun acc m ↦ do
    let agent ← agents[m]?
    return acc ||| agent.capabilities) 0

/-- The part of the required bits that is covered, divided among the members. -/
def covEff [Zero F] [One F] [NatCast F] [Div F] (union required : UInt32) (memberCount : Nat) :
    F :=
  if memberCount = 0 then 0
  else
    let requiredBits := countOnes required
    let fraction : F :=
      if requiredBits = 0 then 1
      else (countOnes (union &&& required) : F) / (requiredBits : F)
    fraction / (memberCount : F)

/-- What is summed over the tasks. -/
structure Tally (F : Type) where
  completed : Nat
  covEffSum : F
  churn : Nat
deriving DecidableEq, Repr

section Run

variable [Zero F] [One F] [NatCast F] [Add F] [Div F]

/-- Add what a task's coalition scored. -/
def Tally.score (tally : Tally F) (union required : UInt32) (memberCount churn : Nat) :
    Tally F where
  completed := if union &&& required = required then tally.completed + 1 else tally.completed
  covEffSum := tally.covEffSum + covEff union required memberCount
  churn

/-- Run the policy over one task. -/
def runTask (policy : Policy σ F) (agents : List CapabilityAgent) (tally : Tally F) (task : Task) :
    EStateM Interrupt σ (Tally F) := do
  call (policy.beginTask ⟨task.required, []⟩)
  let ctx : DecisionContext := ⟨task.required⟩
  let members ← joins policy agents ctx task.arrival
  let (members, churn) ← leaves policy agents ctx members tally.churn
  let union ← unwrap (union agents members)
  let tally := tally.score union task.required members.length churn
  let perBit := (List.range flatSignalWidth).map (Holds union)
  let outcomes ← unwrap (memberOutcomes agents members fun _ ↦ true)
  call (policy.observeOutcome task.required perBit outcomes)
  return tally

end Run

end Flat

variable [Zero F] [One F] [NatCast F] [Add F] [Mul F] [Div F]

/-- The metrics of an instance whose tasks have been run. -/
def InstanceResult.ofTally (inst : Instance) (tally : Flat.Tally F) : InstanceResult F :=
  let nTasks := inst.tasks.length
  let (completionRate, meanCovEff) :=
    if nTasks = 0 then (0, 0)
    else ((tally.completed : F) / (nTasks : F), tally.covEffSum / (nTasks : F))
  { seed := inst.seed
    n := inst.agents.length
    completionRate
    meanCovEff
    primary := completionRate * meanCovEff
    churn := tally.churn }

/-- Run a policy over every task of a flat instance. -/
def runInstance (policy : Policy σ F) (inst : Instance) :
    EStateM Interrupt σ (InstanceResult F) := do
  let tally ← inst.tasks.foldlM (Flat.runTask policy inst.agents)
    { completed := 0, covEffSum := 0, churn := 0 }
  return .ofTally inst tally

end Koalisi.Harness
