import Mathlib.Logic.Function.Basic
import Mathlib.Order.Lattice
import Koalisi.Decision.Query

/-!
# The persistent arm

An arm keeps a world model over a stream of tasks, and answers for an agent whether it should
join or leave by a query to that model.  The state is behind a lock.  A call takes the lock
several times: to see whether the agent is barred, to ask the engine, and to count a leave.
What is done under the lock is one computation here, and a call is a sequence of them.

A cap on the leaves of a task may be set; a call that finds it exhausted declines.  An agent
that has left may be locked out for some tasks.  The sum of two numbers that do not fit is a
panic.
-/

namespace Koalisi.Decision

open Koalisi.Lib.Masks
open Koalisi.Harness (CapabilityAgent Policy)
open Koalisi.Topology (Decision DecisionContext)

variable {F : Type} [FloatingPoint F]

/-- A decision not to act. -/
def declined : Decision F := ⟨false, 0.0⟩

/-- Act if the posterior is above one half; leave also if it is one half. -/
def decisionFromP1 (p1 : F) (leave : Bool) : Decision F :=
  if FloatingPoint.isFinite p1 then
    { act := if leave then (0.5 : F) ≤ p1 else (0.5 : F) < p1, score := p1 - 0.5 }
  else declined

/-- The decision of a posterior, which is to have an entry for the second action. -/
def decisionFromDist (dist : List F) (leave : Bool) : Decision F :=
  match dist[1]? with
  | none => declined
  | some p1 => decisionFromP1 p1 leave

/-- An arm; its width is in range. -/
structure PersistentAifArm (F : Type) where
  config : PersistentAifConfig F
  minNBits_le : minNBits ≤ config.nBits
  le_maxNBits : config.nBits ≤ maxNBits

namespace PersistentAifArm

/-- An arm whose width is brought into range. -/
def ofConfig (config : PersistentAifConfig F) : PersistentAifArm F :=
  ⟨config.clamped, le_max_left _ _, max_le (by decide) (min_le_left _ _)⟩

variable (aif : Aif F)

/-- An arm and its state, unless the engine rejects the world model. -/
def new (batterySeed : UInt64) (config : PersistentAifConfig F) :
    Option (Except aif.AifError (PersistentAifArm F × Inner aif)) := do
  match ← buildPersistentAgent aif config.clamped batterySeed with
  | .error e => return .error e
  | .ok agent =>
      return .ok
        (ofConfig config,
          { agent
            replay := []
            tasksObserved := 0
            decisionCounter := 0
            batterySeed
            evictionsThisTask := 0
            evictedAt := fun _ ↦ none })

/-! ## Outcomes -/

/-- What is observed of each bit. -/
def observation (required : UInt32) (perBitSuccess : List Bool) : List Nat :=
  perBitSuccess.zipIdx.map fun (succeeded, b) ↦
    if required &&& 1 <<< UInt32.ofNat b = 0 then noObs
    else if succeeded then success
    else failure

/-- What the engine answers to an observation, and what becomes of the world model. -/
def learn (inner : Inner aif) (obs : List Nat) : Except aif.AifError (List F) × aif.POMDPAgent :=
  aif.actionProbabilitiesMulti (aif.recordAction inner.agent 0) obs

variable {aif} (arm : PersistentAifArm F)

/-- Observe one outcome, and say whether the engine has taken it; a new task begins. -/
def observe (obs : List Nat) (inner : Inner aif) : Bool × Inner aif :=
  let (result, agent) := learn aif inner obs
  -- nothing is undone if the engine rejects the observation
  (result.isOk,
    { inner with
      agent := if arm.config.trialBoundary = .perTask then aif.resetWindow agent else agent
      replay :=
        (if inner.replay.length = replayCap then inner.replay.drop 1 else inner.replay) ++ [obs]
      tasksObserved := inner.tasksObserved + 1
      evictionsThisTask := 0 })

/-- Observe the outcome of a task, if it has the right width. -/
def observeOutcomeChecked (required : UInt32) (perBitSuccess : List Bool) :
    StateT (Inner aif) Option Bool :=
  if perBitSuccess.length ≠ arm.config.nBits then return false
  else modifyGet (arm.observe (observation required perBitSuccess))

def observeOutcome (required : UInt32) (perBitSuccess : List Bool) :
    StateT (Inner aif) Option Unit := do
  let _ ← arm.observeOutcomeChecked required perBitSuccess

/-! ## Decisions -/

/-- A query for somebody else, which does not count as a decision. -/
def roleQuery (inner : Inner aif) (required cfg0 cfg1 : UInt32) (seed : UInt64)
    (countScale : Option (List F)) :
    Option (Except aif.AifError (aif.POMDPAgent × List (List Nat))) :=
  buildQuery aif inner arm.config seed required cfg0 cfg1 countScale

/-- Ask the engine, under the lock. -/
def ask (required cfg0 cfg1 : UInt32) (leave : Bool) : StateT (Inner aif) Option (Decision F) := do
  modify fun inner ↦ { inner with decisionCounter := inner.decisionCounter + 1 }
  let inner ← get
  let seed := inner.batterySeed ^^^ splitmix64 inner.decisionCounter
  match ← StateT.lift (buildQuery aif inner arm.config seed required cfg0 cfg1 none) with
  | .error _ => return declined
  | .ok (query, replaySeqs) =>
      match (runReplay aif query replaySeqs (countOnes required)).1 with
      | .error _ => return declined
      | .ok dist => return decisionFromDist dist leave

/-- Decide between two coverages, if anything is required. -/
def decide (required cfg0 cfg1 : UInt32) (leave : Bool) :
    StateT (Inner aif) Option (Decision F) :=
  let required := required &&& lowMask arm.config.nBits
  if required = 0 then return declined else arm.ask required cfg0 cfg1 leave

/-- Whether an agent that has left is locked out. -/
def lockedOut (agentId : Nat) : StateT (Inner aif) Option Bool := do
  if arm.config.rejoinLockoutTasks = 0 then return false
  else
    let inner ← get
    match inner.evictedAt agentId with
    | none => return false
    | some t =>
        if t < inner.tasksObserved then
          let last := t + arm.config.rejoinLockoutTasks.toNat
          if last < 2 ^ 64 then return inner.tasksObserved ≤ last else StateT.lift none
        else return false

def shouldJoin (agent : CapabilityAgent) (coalition : List CapabilityAgent)
    (ctx : DecisionContext) : StateT (Inner aif) Option (Decision F) := do
  let alone := agent.capabilities
  if ← arm.lockedOut agent.id then return declined
  else
    let cfg1 := unionCaps coalition ||| alone
    arm.decide ctx.requiredCapabilities alone cfg1 false

/-- Whether the leaves of the task are used up. -/
def capReached : StateT (Inner aif) Option Bool :=
  match arm.config.evictionCap with
  | none => return false
  | some cap => return cap.toNat ≤ (← get).evictionsThisTask

/-- Decide between the coalition with the agent and without it. -/
def decideLeave (agent : CapabilityAgent) (coalition : List CapabilityAgent)
    (ctx : DecisionContext) : StateT (Inner aif) Option (Decision F) :=
  let cfg0 := unionCaps coalition
  let cfg1 := unionCaps (coalition.filter fun a ↦ a.id ≠ agent.id)
  arm.decide ctx.requiredCapabilities cfg0 cfg1 true

/-- Count a leave. -/
def countEviction (agentId : Nat) : StateT (Inner aif) Option Unit :=
  modify fun inner ↦
    { inner with
      evictionsThisTask := inner.evictionsThisTask + 1
      evictedAt := Function.update inner.evictedAt agentId (some inner.tasksObserved) }

def shouldLeave (agent : CapabilityAgent) (coalition : List CapabilityAgent)
    (ctx : DecisionContext) : StateT (Inner aif) Option (Decision F) := do
  if ← arm.capReached then return declined
  else
    let d ← arm.decideLeave agent coalition ctx
    if d.act then countEviction agent.id
    return d

/-- The policy as it is consulted; what it is told of tasks it does not use. -/
def consulted : Policy (Inner aif) F where
  shouldJoin := arm.shouldJoin
  shouldLeave := arm.shouldLeave
  beginTask _ := return
  observeOutcome _ _ _ := return

end PersistentAifArm

end Koalisi.Decision
