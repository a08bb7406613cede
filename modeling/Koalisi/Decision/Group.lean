import Koalisi.Decision.Persistent
import Koalisi.Harness.Generate

/-!
# A group of roles

Each role of a task has an internal agent: a query of its own to a world model, about the bits
that the task demands of the role.  The group lets them all answer, and an active slot of the
engine makes one answer of theirs, by a vote or by way of a topology.  The answers of the
members are looked at once more to see how far they agree; this is reported, and does not
change the decision.

The engine asks every member once, in order; how it then makes one answer is not modelled.
-/

namespace Koalisi.Decision

open Koalisi.Lib.Masks
open Koalisi.Harness (CapabilityAgent Role Step TaskStart)
open Koalisi.Topology (Decision)

/-! ## Configuration -/

/-- The actions of a group: not to act, and to act. -/
def groupNActions : Nat := 2

def actionAct : Nat := 1

def defaultNRoles : Nat := 3

/-- Whether each role has a world model of its own. -/
inductive WorldModelTopology where
  | roleSpecialised
  | shared
deriving DecidableEq, Repr

/-- Whether the counts of a query are scaled by how often a step is demanded. -/
inductive PrecisionChannel where
  | roleRestricted
  | multiplicityWeighted
deriving DecidableEq, Repr

/-- Whose capabilities an internal agent sees. -/
inductive CoverageMasks where
  | roleMatched
  | roleBlind
deriving DecidableEq, Repr

inductive DecisionRead where
  | deterministic
  | seededSampling
deriving DecidableEq, Repr

inductive GroupVote where
  | certaintyWeighted
  | deterministic
deriving DecidableEq, Repr

/-- How the answers of the internal agents reach the active slot. -/
inductive VoteRouting (F : Type) where
  | off
  /-- Through the internal agent of the candidate's role, which is given this weight. -/
  | candidateStar (lambda : F)

structure GroupAifConfig (F : Type) where
  topology : WorldModelTopology
  channel : PrecisionChannel
  masks : CoverageMasks
  read : DecisionRead
  vote : GroupVote
  routing : VoteRouting F
  nRoles : Nat
  base : PersistentAifConfig F

/-- What can go wrong before a decision is asked for. -/
inductive GroupAifError (E F : Type) where
  | roleOutOfRange (role : Role) (nRoles : Nat)
  | emptyDemand (nBits : Nat)
  | unsupportedReadVote
  | invalidRoutingWeight (lambda : F)
  | unsupportedRouting
  | aif (error : E)

section Configuration

variable {F : Type} [FloatingPoint F]

/-- The registered world model of a role. -/
def v5E1Base : PersistentAifConfig F :=
  { PersistentAifConfig.default with
    persistentLearning := true
    queryDynamics := false
    queryNovelty := true
    queryGamma := none }

/-- The registered configuration. -/
def GroupAifConfig.default : GroupAifConfig F where
  topology := .roleSpecialised
  channel := .roleRestricted
  masks := .roleMatched
  read := .deterministic
  vote := .certaintyWeighted
  routing := .off
  nRoles := defaultNRoles
  base := v5E1Base

end Configuration

/-! ## Demands -/

/-- A demand, by the steps that occur in it. -/
structure CountedDemand where
  occurrences : List Step
deriving DecidableEq, Repr

namespace CountedDemand

/-- The distinct steps, in order. -/
def distinct (demand : CountedDemand) : List Step :=
  (Harness.Demand.ofSteps demand.occurrences).distinct

def multiplicity (demand : CountedDemand) (step : Step) : Nat := demand.occurrences.count step

/-- Every step that a task is started with occurs once for each time it is named. -/
def ofStart (start : TaskStart) : CountedDemand := ⟨start.steps.map fun (bit, role) ↦ ⟨bit, role⟩⟩

end CountedDemand

/-- The demand of the task in force, role by role. -/
structure TaskState where
  /-- The bits that are demanded of each role. -/
  required : List UInt32
  /-- How often each bit is demanded of each role. -/
  multiplicity : List (List Nat)
  /-- The roles of which something is demanded. -/
  roster : List Role
  unionRequired : UInt32
deriving DecidableEq, Repr

/-! ## Counters -/

inductive ModelLabel where
  | role (role : Role)
  | shared
deriving DecidableEq, Repr

/-- How often a world model has learned, and how often it should have. -/
structure ModelUpdateAudit where
  label : ModelLabel
  updates : Nat
  expected : Nat
deriving DecidableEq, Repr

def ModelUpdateAudit.isExact (audit : ModelUpdateAudit) : Bool := audit.updates = audit.expected

/-- How the internal agents answered, for one read. -/
structure AgreementSample (F : Type) where
  roster : Nat
  votesForAct : Nat
  candidateSensitive : Nat
  votesForActSensitive : Nat
  votesForActBlind : Nat
  blindWeightShare : F
  sensitiveRows : Nat
  blindOriginShare : F
  centreVote : Option Nat
  leave : Bool
  groupAct : Bool
  margin : F

structure GroupAifCounters (F : Type) where
  tasksObserved : Nat
  decisions : Nat
  reads : Nat
  declinesUpstream : Nat
  declinesMissingRole : Nat
  declinesNoDemand : Nat
  /-- For each task, how many roles something was demanded of. -/
  rosterSizes : List Nat
  leaveQueries : Nat
  leaveQueriesIdentical : Nat
  emptyRoleSlots : Nat
  modelUpdates : List ModelUpdateAudit
  agreement : List (AgreementSample F)
  routedReads : Nat
  beginTaskRejections : Nat
  outcomeUpdatesUnapplied : Nat

namespace GroupAifCounters

variable {F : Type}

def zero : GroupAifCounters F := ⟨0, 0, 0, 0, 0, 0, [], 0, 0, 0, [], [], 0, 0, 0⟩

/-- Every world model has learned as often as it should have, and there were as many outcomes as
tasks. -/
def sLearnExact (counters : GroupAifCounters F) : Bool :=
  counters.modelUpdates.all ModelUpdateAudit.isExact &&
    decide (counters.rosterSizes.length = counters.tasksObserved)

end GroupAifCounters

/-! ## The engine -/

inductive VotingMode where
  | certaintyWeighted
  | deterministic
deriving DecidableEq, Repr

def GroupVote.upstream : GroupVote → VotingMode
  | .certaintyWeighted => .certaintyWeighted
  | .deterministic => .deterministic

/-- The active slot of a group. -/
inductive ActiveSlot (Topology : Type) where
  | voting (mode : VotingMode) (seed : UInt64)
  | routed (mode : VotingMode) (topology : Topology) (seed : UInt64)

/-- What a group uses of the engine. -/
structure GroupAif (F : Type) extends Aif F where
  Topology : Type
  invalidLength : Nat → Nat → AifError
  /-- A topology of a weight matrix and the rows that are read out. -/
  fromAdjacency : List (List F) → List Nat → Nat → Except AifError Topology
  readout : Topology → List Nat
  route : Topology → List (List F) → Except AifError (List (List F))
  weight : Topology → Nat → Nat → F
  /-- One distribution of those of the members. -/
  aggregate : ActiveSlot Topology → List (List F) → Except AifError (List F)
  /-- Draw an action from the vote. -/
  sample : VotingMode → UInt64 → List (List F) → Except AifError Nat

variable {F : Type} [FloatingPoint F]

/-! ## Members -/

/-- The weight of a distribution, which is larger the more certain it is. -/
def confidenceWeight (dist : List F) : F :=
  let h := floatSum ((dist.filter fun p ↦ (1e-15 : F) < p).map fun p ↦ -p * FloatingPoint.ln p)
  FloatingPoint.exp (-h)

/-- The place of the largest entry, the first of them if there are several. -/
def argmax (dist : List F) : Option Nat :=
  (dist.zipIdx.foldl better none).map (·.2)
where
  /-- The better of two entries. -/
  better (best : Option (F × Nat)) (entry : F × Nat) : Option (F × Nat) :=
    match best with
    | some b => if entry.1 ≤ b.1 then some b else some entry
    | none => some entry

variable (aif : GroupAif F)

/-- The internal agent of a role. -/
structure RoleMember where
  query : aif.POMDPAgent
  /-- The outcomes to be replayed. -/
  replay : List (List Nat)
  modalities : Nat
  lastVote : Option Nat
  lastWeight : F
  lastDist : Option (List F)
  /-- The candidate's capabilities are among those that it sees. -/
  candidateSensitive : Bool

/-- The answer of a member; it is empty if the engine rejects the replay. -/
def RoleMember.actionProbabilities (member : RoleMember aif) : List F × RoleMember aif :=
  match runReplay aif.toAif member.query member.replay member.modalities with
  | (.ok dist, query) =>
      (dist,
        { member with
          query
          lastVote := argmax dist
          lastWeight := confidenceWeight dist
          lastDist := some dist })
  | (.error _, query) =>
      ([], { member with query, lastVote := none, lastWeight := 0.0, lastDist := none })

/-- Let every member answer. -/
def pollMembers (members : List (RoleMember aif)) : List (List F) × List (RoleMember aif) :=
  (members.map (RoleMember.actionProbabilities aif)).unzip

/-- One distribution for the group, and the members after they have answered. -/
def groupDistribution (slot : ActiveSlot aif.Topology) (members : List (RoleMember aif)) :
    Except aif.AifError (List F) × List (RoleMember aif) :=
  let (answers, members) := pollMembers aif members
  (aif.aggregate slot answers, members)

/-! ## Routing -/

/-- The star around the candidate's role, and whether it differs from no routing at all. -/
def candidateStar (n : Nat) (centre : Option Nat) (lambda : F) :
    Except aif.AifError (aif.Topology × Bool) := do
  let entry (i j : Nat) : F :=
    match centre with
    | some c =>
        if i ≠ c ∧ j = c then lambda
        else if i ≠ c ∧ j = i then 1.0 - lambda
        else if i = j then 1.0
        else 0.0
    | none => if i = j then 1.0 else 0.0
  let rows := (List.range n).map fun i ↦ (List.range n).map (entry i)
  let topology ← aif.fromAdjacency rows (List.range n) 1
  return (topology, centre.isSome && 2 ≤ n && (0.0 : F) < lambda)

/-- What one read carries besides the group itself. -/
structure ReadContext where
  roster : Nat
  /-- The place of the candidate's role on the roster. -/
  centre : Option Nat
  topology : Option aif.Topology
  routed : Bool
  leave : Bool
  leaveQueries : Nat
  leaveIdentical : Nat

/-- The rows that are read out, each with its weight. -/
def readoutRows (members : List (RoleMember aif)) (topology : Option aif.Topology) :
    Except aif.AifError (List (Nat × F)) :=
  match topology with
  | none =>
      return members.zipIdx.map fun (m, i) ↦ (i, (m.lastDist.map confidenceWeight).getD 0.0)
  | some t => do
      let outputs ← members.mapM fun m ↦
        match m.lastDist with
        | some dist => .ok dist
        | none => .error (aif.invalidLength groupNActions 0)
      let routed ← aif.route t outputs
      return (aif.readout t).zip (routed.map confidenceWeight)

/-- How many rows reach somebody who sees the candidate, and the share of those who do not. -/
def originReach (members : List (RoleMember aif)) (topology : Option aif.Topology) :
    Except aif.AifError (Nat × F) := do
  let rows ← readoutRows aif members topology
  let weight (i j : Nat) : F :=
    match topology with
    | some t => aif.weight t i j
    | none => if i = j then 1.0 else 0.0
  let sensitiveRows := rows.countP fun (i, _) ↦
    members.zipIdx.any fun (m, j) ↦ m.candidateSensitive && (0.0 : F) < weight i j
  let rowBlind (i : Nat) : F :=
    floatSum ((members.zipIdx.filter fun (m, _) ↦ !m.candidateSensitive).map fun (_, j) ↦
      weight i j)
  let blindMass := floatSum (rows.map fun (i, w) ↦ w * rowBlind i)
  let total := floatSum (rows.map (·.2))
  return (sensitiveRows, if (0.0 : F) < total then blindMass / total else 0.0)

/-- How the members answered in a read. -/
def agreementSample (members : List (RoleMember aif)) (read : ReadContext aif) (pAct : F)
    (groupAct : Bool) : Except aif.AifError (AgreementSample F) := do
  let (sensitiveRows, blindOriginShare) ← originReach aif members read.topology
  let acted (m : RoleMember aif) : Bool := m.lastVote = some actionAct
  let totalWeight := floatSum (members.map (·.lastWeight))
  let blindWeight :=
    floatSum ((members.filter fun m ↦ !m.candidateSensitive).map (·.lastWeight))
  return {
    roster := read.roster
    votesForAct := members.countP acted
    candidateSensitive := members.countP (·.candidateSensitive)
    votesForActSensitive := members.countP fun m ↦ m.candidateSensitive && acted m
    votesForActBlind := members.countP fun m ↦ !m.candidateSensitive && acted m
    blindWeightShare := if (0.0 : F) < totalWeight then blindWeight / totalWeight else 0.0
    sensitiveRows
    blindOriginShare
    centreVote := do (← members[← read.centre]?).lastVote
    leave := read.leave
    groupAct
    margin := FloatingPoint.abs (pAct - 0.5) }

/-! ## Coverage -/

/-- Somebody who takes part in a decision. -/
structure Participant where
  role : Role
  agentId : Nat
  capabilities : UInt32
deriving DecidableEq, Repr

/-- The two coverages of a query, and whether the candidate is in them. -/
structure MaskPair where
  cfg0 : UInt32
  cfg1 : UInt32
  candidateSensitive : Bool
deriving DecidableEq, Repr

/-- What the internal agent of a role sees of a decision about a candidate. -/
def coverageMasks (masks : CoverageMasks) (role : Role) (candidate : Participant)
    (members : List Participant) (leave : Bool) : MaskPair :=
  let roleMatched : Bool := masks = .roleMatched
  let seen := members.filter fun m ↦
    (!roleMatched || m.role = role) && !(leave && m.agentId = candidate.agentId)
  let memberUnion := seen.foldl (fun acc m ↦ acc ||| m.capabilities) 0
  let candidateSensitive := !roleMatched || candidate.role = role
  let own := if candidateSensitive then candidate.capabilities else 0
  if leave then
    { cfg0 := memberUnion ||| own, cfg1 := memberUnion, candidateSensitive }
  else
    { cfg0 := own, cfg1 := own ||| memberUnion, candidateSensitive }

/-! ## A sample engine -/

/-- A group of agents that are always undecided, and of one mind. -/
def undecidedGroup : GroupAif ℚ where
  toAif := undecidedAif
  Topology := List (List ℚ)
  invalidLength _ _ := ()
  fromAdjacency rows _ _ := .ok rows
  readout topology := List.range topology.length
  route _ answers := .ok answers
  weight topology i j := ((topology[i]?).bind (·[j]?)).getD 0
  aggregate _ answers := match answers with
    | [] => .error ()
    | answer :: _ => .ok answer
  sample _ _ _ := .ok 0

end Koalisi.Decision
