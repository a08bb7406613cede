import Koalisi.Decision.Group

/-!
# The group arm

An arm is told of a task, then asked about agents, and then told of the outcome.  It keeps the
task in force, the world models of its roles and many counters.  A decision can end early in
several ways, and each of them is counted.  What a world model should have learned is counted
when a task begins, and what it has learned when the outcome is observed.

A task whose demand is refused leaves no task in force.
-/

namespace Koalisi.Decision

open Koalisi.Lib.Masks
open Koalisi.Harness (CapabilityAgent Policy Role Step TaskStart)
open Koalisi.Topology (Decision DecisionContext)

variable {F : Type} [FloatingPoint F]

/-! ## World models -/

/-- The state of the world models. -/
inductive Models (aif : GroupAif F) where
  /-- One for each role. -/
  | roleSpecialised (models : List (Inner aif.toAif))
  | shared (model : Inner aif.toAif)

namespace Models

variable {aif : GroupAif F}

/-- The world model that the internal agent of a role reads from. -/
def view (role : Role) : Models aif → Option (Inner aif.toAif)
  | roleSpecialised models => models[role.toNat]?
  | shared model => some model

def labels (nRoles : Nat) : Models aif → List ModelLabel
  | roleSpecialised _ => (List.range nRoles).map fun r ↦ .role (UInt8.ofNat r)
  | shared _ => [.shared]

def len : Models aif → Nat
  | roleSpecialised models => models.length
  | shared _ => 1

/-- The world models with one of them changed. -/
def set (index : Nat) (model : Inner aif.toAif) : Models aif → Models aif
  | roleSpecialised models => roleSpecialised (models.set index model)
  | shared _ => shared model

end Models

/-! ## Policy and state -/

/-- Refuse the settings that do not go together. -/
def GroupAifConfig.check {E : Type} (config : GroupAifConfig F) :
    Except (GroupAifError E F) Unit :=
  if config.read = .seededSampling ∧ config.vote ≠ .certaintyWeighted then
    .error .unsupportedReadVote
  else
    match config.routing with
    | .off => .ok ()
    | .candidateStar lambda =>
        if ¬((0.0 : F) ≤ lambda ∧ lambda ≤ (1.0 : F)) then .error (.invalidRoutingWeight lambda)
        else if config.read ≠ .deterministic ∨ config.vote ≠ .certaintyWeighted then
          .error .unsupportedRouting
        else .ok ()

/-- What does not change of an arm. -/
structure GroupAifPolicy (aif : GroupAif F) where
  config : GroupAifConfig F
  /-- How the world models are configured. -/
  arm : PersistentAifArm F
  agentRoles : Nat → Option Role
  batterySeed : UInt64
  checked : config.check (E := aif.AifError) = .ok ()
  nRoles_pos : 0 < config.nRoles
  nRoles_lt : config.nRoles < 256

/-- What changes. -/
structure GroupState (aif : GroupAif F) where
  task : Option TaskState
  counters : GroupAifCounters F
  /-- How often each world model has learned. -/
  updates : List Nat
  /-- How often each world model should have learned. -/
  expected : List Nat
  decisionCounter : UInt64
  models : Models aif

namespace GroupAifPolicy

variable {aif : GroupAif F}

/-- The world models before anything is learned. -/
def buildModels (aif : GroupAif F) (batterySeed : UInt64) (config : GroupAifConfig F) :
    ExceptT aif.AifError Option (Models aif) :=
  match config.topology with
  | .roleSpecialised => do
      let models ← (List.range config.nRoles).mapM fun r ↦ do
        let seed := batterySeed ^^^ splitmix64 (UInt64.ofNat r + 1)
        let (_, model) ← ExceptT.mk (PersistentAifArm.new aif.toAif seed config.base)
        return model
      return .roleSpecialised models
  | .shared => do
      let (_, model) ← ExceptT.mk (PersistentAifArm.new aif.toAif batterySeed config.base)
      return .shared model

/-- An arm and its state, unless the configuration is refused or the engine rejects a world
model. -/
def new (aif : GroupAif F) (batterySeed : UInt64) (config : GroupAifConfig F)
    (agentRoles : Nat → Option Role) :
    Option (Except (GroupAifError aif.AifError F) (GroupAifPolicy aif × GroupState aif)) :=
  match hcheck : config.check (E := aif.AifError) with
  | .error e => some (.error e)
  | .ok () => do
      let config' := { config with nRoles := max 1 (min 255 config.nRoles) }
      match ← (buildModels aif batterySeed config').run with
      | .error e => return .error (.aif e)
      | .ok models =>
          return .ok
            ({ config := config'
               arm := .ofConfig config.base
               agentRoles
               batterySeed
               checked := hcheck
               nRoles_pos := Nat.lt_of_lt_of_le Nat.zero_lt_one (Nat.le_max_left _ _)
               nRoles_lt := Nat.lt_of_le_of_lt
                 (Nat.max_le.mpr ⟨by decide, Nat.min_le_left _ _⟩) (by decide) },
              { task := none
                counters := .zero
                updates := List.replicate models.len 0
                expected := List.replicate models.len 0
                decisionCounter := 0
                models })

variable (policy : GroupAifPolicy aif)

/-- The width of the world models. -/
def nBits : Nat := policy.arm.config.nBits

/-- Change the counters. -/
def count (f : GroupAifCounters F → GroupAifCounters F) : StateT (GroupState aif) Option Unit :=
  modify fun s ↦ { s with counters := f s.counters }

/-! ## Tasks -/

/-- Enter a step in the slot of its role; a bit that has no factor is dropped. -/
def enterStep (demand : CountedDemand) (slots : List UInt32 × List (List Nat)) (step : Step) :
    Except (GroupAifError aif.AifError F) (List UInt32 × List (List Nat)) :=
  let role := step.role.toNat
  let bit := step.bit.toNat
  if policy.config.nRoles ≤ role then
    .error (.roleOutOfRange step.role policy.config.nRoles)
  else if policy.nBits ≤ bit then .ok slots
  else .ok (slots.1.modify role (· ||| 1 <<< UInt32.ofNat bit),
    slots.2.modify role (·.set bit (demand.multiplicity step)))

/-- The roles of which some bits are demanded. -/
def rosterOf (required : List UInt32) : List Role :=
  ((List.range policy.config.nRoles).filter fun r ↦ required.getD r 0 ≠ 0).map UInt8.ofNat

/-- The demand role by role, unless it is refused. -/
def plan (demand : CountedDemand) : Except (GroupAifError aif.AifError F) TaskState := do
  let nRoles := policy.config.nRoles
  let (required, multiplicity) ← demand.distinct.foldlM (policy.enterStep demand)
    (List.replicate nRoles 0, List.replicate nRoles (List.replicate policy.nBits 0))
  let roster := policy.rosterOf required
  if roster.isEmpty then .error (.emptyDemand policy.nBits)
  else return { required, multiplicity, roster, unionRequired := required.foldl (· ||| ·) 0 }

/-- One more task for every world model that something is demanded of. -/
def expectMore (models : Models aif) (roster : List Role) (expected : List Nat) : List Nat :=
  match models with
  | .roleSpecialised _ => roster.foldl (fun expected r ↦ expected.modify r.toNat (· + 1)) expected
  | .shared _ => expected.modify 0 (· + 1)

/-- Put a task in force; the answer is how many roles something is demanded of. -/
def beginTask (demand : CountedDemand) :
    StateT (GroupState aif) Option (Except (GroupAifError aif.AifError F) Nat) := do
  modify fun s ↦ { s with task := none }
  match policy.plan demand with
  | .error e => return .error e
  | .ok task =>
      let size := task.roster.length
      count fun c ↦ { c with
        rosterSizes := c.rosterSizes ++ [size]
        emptyRoleSlots := c.emptyRoleSlots + (policy.config.nRoles - size) }
      modify fun s ↦ { s with
        expected := expectMore s.models task.roster s.expected
        task := some task }
      return .ok size

/-! ## Outcomes -/

/-- One more update of a world model. -/
def countUpdate (index : Nat) : StateT (GroupState aif) Option Unit := do
  let s ← get
  if index < s.updates.length then set { s with updates := s.updates.modify index (· + 1) }
  else StateT.lift none

/-- Let a world model learn; the answer is one if the engine has taken it. -/
def learnOutcome (index : Nat) (model : Inner aif.toAif) (required : UInt32)
    (perBitSuccess : List Bool) : StateT (GroupState aif) Option Nat := do
  let (applied, model) ← StateT.lift
    ((policy.arm.observeOutcomeChecked required perBitSuccess).run model)
  modify fun s ↦ { s with models := s.models.set index model }
  if applied then
    countUpdate index
    return 1
  else return 0

/-- Let the world model of a role learn, if there is one. -/
def learnRole (task : TaskState) (perBitSuccess : List Bool) (applied : Nat) (role : Role) :
    StateT (GroupState aif) Option Nat := do
  match (← get).models with
  | .shared _ => return applied
  | .roleSpecialised models =>
      match models[role.toNat]? with
      | none => return applied
      | some model =>
          let required ← StateT.lift task.required[role.toNat]?
          return applied + (← policy.learnOutcome role.toNat model required perBitSuccess)

/-- Observe the outcome of the task in force; the answer is how many world models have
learned. -/
def observeOutcome (perBitSuccess : List Bool) : StateT (GroupState aif) Option Nat :=
  if perBitSuccess.length ≠ policy.nBits then return 0
  else do
    match (← get).task with
    | none => return 0
    | some task =>
        let applied ←
          match (← get).models with
          | .roleSpecialised _ => task.roster.foldlM (policy.learnRole task perBitSuccess) 0
          | .shared model => policy.learnOutcome 0 model task.unionRequired perBitSuccess
        count fun c ↦ { c with tasksObserved := c.tasksObserved + 1 }
        return applied

/-- The counters, with those of the world models. -/
def counters (s : GroupState aif) : GroupAifCounters F :=
  { s.counters with
    modelUpdates := (s.models.labels policy.config.nRoles).zipIdx.map fun (label, i) ↦
      { label, updates := s.updates.getD i 0, expected := s.expected.getD i 0 } }

/-! ## Decisions -/

/-- Everybody who takes part, unless one of them has no role. -/
def resolveParticipants (agent : CapabilityAgent) (coalition : List CapabilityAgent) :
    Option (Role × List Participant) := do
  let agentRole ← policy.agentRoles agent.id
  let members ← coalition.mapM fun m ↦ do
    return { role := ← policy.agentRoles m.id, agentId := m.id, capabilities := m.capabilities }
  return (agentRole, members)

/-- How much the counts of each bit of a role are scaled. -/
def scaleFor (task : TaskState) (role : Role) (requiredR : UInt32) : List F :=
  (setBits requiredR policy.nBits).map fun bit ↦
    let m := (task.multiplicity[role.toNat]?.bind (·[bit]?)).getD 1
    ((max m 1 : Nat) : F)

/-- The queries of a leave, and how many of them have the same coverage twice. -/
structure LeaveTally where
  queries : Nat
  identical : Nat
deriving DecidableEq, Repr

/-- Add a query. -/
def LeaveTally.add (tally : LeaveTally) (masks : MaskPair) : LeaveTally where
  queries := tally.queries + 1
  identical := tally.identical + if masks.cfg0 = masks.cfg1 then 1 else 0

/-- The internal agents of the roles, or what was tallied until one could not be built. -/
def buildInternals (models : Models aif) (task : TaskState) (candidate : Participant)
    (members : List Participant) (leave : Bool) (seed : UInt64) : List Role → LeaveTally →
    Option (Except LeaveTally (List (RoleMember aif) × LeaveTally))
  | [], tally => some (.ok ([], tally))
  | role :: roles, tally => do
      let requiredR := (← task.required[role.toNat]?) &&& lowMask policy.nBits
      let masks := coverageMasks policy.config.masks role candidate members leave
      let tally := if leave then tally.add masks else tally
      let scale :=
        match policy.config.channel with
        | .roleRestricted => none
        | .multiplicityWeighted => some (policy.scaleFor task role requiredR)
      match models.view role with
      | none => return .error tally
      | some model =>
          let memberSeed := seed ^^^ splitmix64 (UInt64.ofNat role.toNat + 1)
          match ← policy.arm.roleQuery model requiredR masks.cfg0 masks.cfg1 memberSeed scale with
          | .error _ => return .error tally
          | .ok (query, replay) =>
              let member : RoleMember aif :=
                { query
                  replay
                  modalities := countOnes requiredR
                  lastVote := none
                  lastWeight := 0.0
                  lastDist := none
                  candidateSensitive := masks.candidateSensitive }
              match ← buildInternals models task candidate members leave seed roles tally with
              | .error tally => return .error tally
              | .ok (internals, tally) => return .ok (member :: internals, tally)

def countUpstreamDecline : StateT (GroupState aif) Option Unit :=
  count fun c ↦ { c with declinesUpstream := c.declinesUpstream + 1 }

/-- Count the queries of a leave, if there were any. -/
def recordLeaveMasks (tally : LeaveTally) : StateT (GroupState aif) Option Unit :=
  if tally.queries = 0 then return
  else
    count fun c ↦ { c with
      leaveQueries := c.leaveQueries + tally.queries
      leaveQueriesIdentical := c.leaveQueriesIdentical + tally.identical }

/-- Decline because of the engine. -/
def declineUpstream (tally : LeaveTally) : StateT (GroupState aif) Option (Decision F) := do
  countUpstreamDecline
  recordLeaveMasks tally
  return declined

/-- Read the group and act if the posterior is above one half. -/
def deterministicDecision (slot : ActiveSlot aif.Topology) (internals : List (RoleMember aif))
    (read : ReadContext aif) : StateT (GroupState aif) Option (Decision F) :=
  let tally := ⟨read.leaveQueries, read.leaveIdentical⟩
  let (dist, internals) := groupDistribution aif slot internals
  match dist with
  | .error _ => declineUpstream tally
  | .ok dist =>
      match dist[actionAct]? with
      | none => declineUpstream tally
      | some pAct =>
          if ¬FloatingPoint.isFinite pAct then declineUpstream tally
          else
            let groupAct : Bool := (0.5 : F) < pAct
            match agreementSample aif internals read pAct groupAct with
            | .error _ => declineUpstream tally
            | .ok sample => do
                count fun c ↦ { c with
                  reads := c.reads + 1
                  routedReads := c.routedReads + if read.routed then 1 else 0
                  leaveQueries := c.leaveQueries + read.leaveQueries
                  leaveQueriesIdentical := c.leaveQueriesIdentical + read.leaveIdentical
                  agreement := c.agreement ++ [sample] }
                return { act := groupAct, score := pAct - 0.5 }

/-- Draw an action; the score says which it was. -/
def sampledDecision (seed : UInt64) (internals : List (RoleMember aif)) :
    StateT (GroupState aif) Option (Decision F) :=
  match aif.sample policy.config.vote.upstream seed (pollMembers aif internals).1 with
  | .ok action => do
      count fun c ↦ { c with reads := c.reads + 1 }
      let act : Bool := action = actionAct
      return { act, score := if act then 0.5 else -0.5 }
  | .error _ => do
      countUpstreamDecline
      return declined

/-- Decide by the internal agents. -/
def readGroup (task : TaskState) (agentRole : Role) (leave : Bool) (seed : UInt64)
    (internals : List (RoleMember aif)) (tally : LeaveTally) :
    StateT (GroupState aif) Option (Decision F) :=
  let roster := internals.length
  let centre := task.roster.findIdx? (· = agentRole)
  let mode := policy.config.vote.upstream
  match policy.config.routing with
  | .off =>
      if policy.config.read = .seededSampling then do
        let d ← policy.sampledDecision seed internals
        recordLeaveMasks tally
        return d
      else
        deterministicDecision (.voting mode seed) internals
          { roster
            centre
            topology := none
            routed := false
            leave
            leaveQueries := tally.queries
            leaveIdentical := tally.identical }
  | .candidateStar lambda =>
      match candidateStar aif roster centre lambda with
      | .error _ => declineUpstream tally
      | .ok (topology, routed) =>
          deterministicDecision (.routed mode topology seed) internals
            { roster
              centre
              topology := some topology
              routed
              leave
              leaveQueries := tally.queries
              leaveIdentical := tally.identical }

/-- Whether to act, for an agent and a coalition. -/
def decide (agent : CapabilityAgent) (coalition : List CapabilityAgent) (leave : Bool) :
    StateT (GroupState aif) Option (Decision F) := do
  count fun c ↦ { c with decisions := c.decisions + 1 }
  match (← get).task with
  | none =>
      count fun c ↦ { c with declinesNoDemand := c.declinesNoDemand + 1 }
      return declined
  | some task =>
      match policy.resolveParticipants agent coalition with
      | none =>
          count fun c ↦ { c with declinesMissingRole := c.declinesMissingRole + 1 }
          return declined
      | some (agentRole, members) =>
          modify fun s ↦ { s with decisionCounter := s.decisionCounter + 1 }
          let s ← get
          let seed := policy.batterySeed ^^^ splitmix64 s.decisionCounter
          let candidate : Participant := ⟨agentRole, agent.id, agent.capabilities⟩
          match ← StateT.lift (policy.buildInternals s.models task candidate members leave seed
            task.roster ⟨0, 0⟩) with
          | .error tally => declineUpstream tally
          | .ok (internals, tally) =>
              policy.readGroup task agentRole leave seed internals tally

/-! ## As a policy -/

def shouldJoin (agent : CapabilityAgent) (coalition : List CapabilityAgent)
    (_ : DecisionContext) : StateT (GroupState aif) Option (Decision F) :=
  policy.decide agent coalition false

def shouldLeave (agent : CapabilityAgent) (coalition : List CapabilityAgent)
    (_ : DecisionContext) : StateT (GroupState aif) Option (Decision F) :=
  policy.decide agent coalition true

/-- Begin a task by its steps, and count a refusal. -/
def startTask (start : TaskStart) : StateT (GroupState aif) Option Unit := do
  match ← policy.beginTask (.ofStart start) with
  | .ok _ => return
  | .error _ => count fun c ↦ { c with beginTaskRejections := c.beginTaskRejections + 1 }

/-- Observe an outcome, and count if no world model has learned. -/
def reportOutcome (perBitSuccess : List Bool) : StateT (GroupState aif) Option Unit := do
  let applied ← policy.observeOutcome perBitSuccess
  if applied = 0 then
    count fun c ↦ { c with outcomeUpdatesUnapplied := c.outcomeUpdatesUnapplied + 1 }

/-- The policy as it is consulted. -/
def consulted : Policy (GroupState aif) F where
  shouldJoin := policy.shouldJoin
  shouldLeave := policy.shouldLeave
  beginTask := policy.startTask
  observeOutcome _ perBitSuccess _ := policy.reportOutcome perBitSuccess

end GroupAifPolicy

end Koalisi.Decision
