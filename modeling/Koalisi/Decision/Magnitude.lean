import Mathlib.Algebra.Order.Field.Basic
import Koalisi.Lib.Literals
import Koalisi.Lib.Masks
import Koalisi.Harness.Workflow

/-!
# Deciding by magnitude

An agent joins a coalition if that raises the coalition's magnitude by more than a margin,
and leaves if the coalition loses nothing.  Members that hold nothing the task requires do
not count.  How much one member can stand in for another is a coupling between 0 and 1; an
engine computes the magnitude from the couplings.

The engine can also answer for one candidate after another against the same members, which
is faster and nearly exact.  The policy keeps such an evaluator in a cache, with the masks
of the candidates it was built for.  Where the answer is too near to the threshold, the
magnitude is computed afresh.  With roles, couplings are modulated and everything is
computed afresh.

The engine is not modelled: it is a parameter.  Numbers are exact.  This is the default build,
without the opt-in levers.
-/

namespace Koalisi.Decision

open Koalisi.Lib.Masks
open scoped Koalisi.Lib.Literals
open Koalisi.Harness (CapabilityAgent Policy)
open Koalisi.Topology (Decision DecisionContext)

/-! ## The engine -/

/-- A directed coupling between two agent slots. -/
abbrev Coupling (K : Type) := Nat × Nat × K

abbrev RoleId := Nat

/-- What is used of the engine. -/
structure CatgraphMagnitude (K : Type) where
  CatgraphError : Type
  /-- A coalition whose magnitude is known, with a pool of candidates. -/
  CoalitionEvaluator : Type
  /-- Buffers that a query may write to. -/
  EvalScratch : Type
  RoleModulation : Type
  /-- The magnitude of the members, among agents with these couplings. -/
  coalitionValue : List Nat → List (Coupling K) → List Nat → Except CatgraphError K
  /-- An evaluator for the members at a scale; the other agents are the candidates. -/
  newEvaluator : List Nat → List (Coupling K) → List Nat → K →
    Except CatgraphError CoalitionEvaluator
  newScratch : EvalScratch
  baseValue : CoalitionEvaluator → K
  /-- The magnitude with one more agent. -/
  valueWithScratch : CoalitionEvaluator → Nat → EvalScratch →
    Except CatgraphError K × EvalScratch
  /-- Weaken the couplings between agents by their roles. -/
  modulate : List (Coupling K) → List RoleId → RoleModulation →
    Except CatgraphError (List (Coupling K))

variable {K : Type} [Field K] [LinearOrder K]

/-- Exact numbers are finite. -/
def isFinite (_ : K) : Bool := true

/-! ## Masks and couplings -/

/-- How much of what the first agent holds of the task the second one holds too. -/
def coupling (fromCaps toCaps required : UInt32) : K :=
  let relFrom := fromCaps &&& required
  let relTo := toCaps &&& required
  if relFrom = 0 then 0
  else (countOnes (relFrom &&& relTo) : K) / (countOnes relFrom : K)

/-- A coupling, if it is positive. -/
def positive (c : Coupling K) : List (Coupling K) := if 0 < c.2.2 then [c] else []

/-- The couplings of every two members. -/
def memberCouplings (masks : List UInt32) (required : UInt32) : List (Coupling K) :=
  masks.zipIdx.flatMap fun (mask, i) ↦
    masks.zipIdx.flatMap fun (mask', j) ↦
      if i = j then [] else positive (i, j, coupling mask mask' required)

/-- The couplings of members and candidates, whose slots come after those of the members. -/
def candidateCouplings (memberMasks candidateMasks : List UInt32) (required : UInt32) :
    List (Coupling K) :=
  candidateMasks.zipIdx.flatMap fun (cand, s) ↦
    if cand &&& required = 0 then []
    else memberMasks.zipIdx.flatMap fun (mem, i) ↦
      positive (i, memberMasks.length + s, coupling mem cand required) ++
        positive (memberMasks.length + s, i, coupling cand mem required)

/-- The masks of the agents that hold something of the task, each agent once. -/
def relevantMasks (agents : List CapabilityAgent) (required : UInt32) : List UInt32 :=
  go [] agents
where
  /-- From here on, with the agents seen so far. -/
  go (seen : List Nat) : List CapabilityAgent → List UInt32
    | [] => []
    | a :: agents =>
        if a.capabilities &&& required ≠ 0 ∧ a.id ∉ seen then
          a.capabilities :: go (a.id :: seen) agents
        else go seen agents

variable (cg : CatgraphMagnitude K)

def magnitudeOfMasks (masks : List UInt32) (required : UInt32) : Except cg.CatgraphError K :=
  cg.coalitionValue (List.range masks.length) (memberCouplings masks required)
    (List.range masks.length)

/-- The magnitude of no members is zero. -/
def magnitudeOrZero (masks : List UInt32) (required : UInt32) : Except cg.CatgraphError K :=
  if masks.isEmpty then .ok 0 else magnitudeOfMasks cg masks required

/-! ## With roles -/

/-- Who has which role, and how roles stand in for one another. -/
structure TypedConfig where
  roles : Nat → Option RoleId
  rho : cg.RoleModulation

/-- The masks of one side of a decision, with the roles. -/
structure TypedSide where
  masks : List UInt32
  roles : List RoleId
deriving DecidableEq, Repr

/-- Like `relevantMasks`; there is no side if one of the agents has no role. -/
def typedRelevantMasks (agents : List CapabilityAgent) (required : UInt32)
    (roles : Nat → Option RoleId) : Option TypedSide :=
  go [] agents
where
  /-- From here on, with the agents seen so far. -/
  go (seen : List Nat) : List CapabilityAgent → Option TypedSide
    | [] => some ⟨[], []⟩
    | a :: agents =>
        if a.capabilities &&& required = 0 ∨ a.id ∈ seen then go seen agents
        else
          match roles a.id with
          | none => none
          | some role => do
              let side ← go (a.id :: seen) agents
              return ⟨a.capabilities :: side.masks, role :: side.roles⟩

def typedMagnitudeOfMasks (side : TypedSide) (required : UInt32) (rho : cg.RoleModulation) :
    Except cg.CatgraphError K := do
  let modulated ← cg.modulate (memberCouplings side.masks required) side.roles rho
  cg.coalitionValue (List.range side.masks.length) modulated (List.range side.masks.length)

def typedMagnitudeOrZero (side : TypedSide) (required : UInt32) (rho : cg.RoleModulation) :
    Except cg.CatgraphError K :=
  if side.masks.isEmpty then .ok 0 else typedMagnitudeOfMasks cg side required rho

/-! ## The decision rules -/

/-- A decision not to act. -/
def decline : Decision K := ⟨false, 0⟩

variable {cg}

/-- Join if the magnitude rises by more than the margin. -/
def joinDecisionFromValues (magWith magWithout : Except cg.CatgraphError K) (joinMargin : K) :
    Decision K :=
  match magWith, magWithout with
  | .ok magWith, .ok magWithout =>
      let margin := magWith - magWithout
      if !isFinite margin then decline
      else { act := joinMargin < margin, score := margin }
  | _, _ => decline

/-- Leave if the magnitude does not fall. -/
def leaveDecisionFromValues (magIn magOut : Except cg.CatgraphError K) : Decision K :=
  match magIn, magOut with
  | .ok magIn, .ok magOut =>
      let delta := magIn - magOut
      if !isFinite delta then decline
      else { act := delta ≤ 0, score := delta }
  | _, _ => decline

/-! ## The evaluator cache -/

/-- Half the width of the band around a threshold. -/
def knifeEdgeRelBand : K := 1 / 10 ^ 6

/-- The margin is so near to the threshold that it has to be computed afresh. -/
def isKnifeEdge (magWith base threshold : K) : Bool :=
  |magWith - base - threshold| ≤ knifeEdgeRelBand * max (max |magWith| |base|) 1

/-- The answer for a candidate, or the fresh magnitude where the answer is too near to the
threshold. -/
def offKnifeEdge (fresh answer : Except cg.CatgraphError K) (base threshold : K) :
    Except cg.CatgraphError K :=
  match answer with
  | .ok w => if isKnifeEdge w base threshold then fresh else .ok w
  | .error e => .error e

/-- How many candidates an evaluator is built for. -/
def registryCap : Nat := 256

variable (cg)

/-- A coalition with its evaluator, and the candidates that the evaluator knows. -/
structure EvaluatorCache where
  required : UInt32
  memberMasks : List UInt32
  candidateMasks : List UInt32
  evaluator : cg.CoalitionEvaluator
  scratch : cg.EvalScratch

/-- Build an evaluator: the members first, then the candidates. -/
def buildEvaluator (required : UInt32) (memberMasks candidateMasks : List UInt32) :
    Except cg.CatgraphError cg.CoalitionEvaluator :=
  cg.newEvaluator (List.range (memberMasks.length + candidateMasks.length))
    (memberCouplings memberMasks required ++
      candidateCouplings memberMasks candidateMasks required)
    (List.range memberMasks.length) 1

/-- What is done while the cache is locked; `none` is a panic. -/
abbrev Locked := StateT (Option (EvaluatorCache cg)) Option

/-- What the cache holds; it is populated. -/
def populated : Locked cg (EvaluatorCache cg) := do
  match ← get with
  | some c => return c
  | none => failure

/-- Take the candidates out, to build an evaluator for them. -/
def takeRegistryAndScratch : Locked cg (List UInt32 × cg.EvalScratch) := do
  let taken ← modifyGet fun guard ↦ (guard, none)
  let (registry, scratch) := match taken with
    | some c => (c.candidateMasks, c.scratch)
    | none => ([], cg.newScratch)
  return if registryCap ≤ registry.length then ([], scratch) else (registry, scratch)

variable {cg}

/-- The cache is for this task and these members. -/
def EvaluatorCache.serves (c : EvaluatorCache cg) (required : UInt32) (memberMasks : List UInt32) :
    Bool :=
  c.required == required && c.memberMasks == memberMasks

/-- Leave with the error, if it is one. -/
def orLeave {α : Type} (r : Except cg.CatgraphError α) : ExceptT cg.CatgraphError (Locked cg) α :=
  ExceptT.mk (pure r)

variable (cg)

/-- Build an evaluator for these members and for the registered candidates, unless the cache
has one. -/
def rebuildUnlessServed (required : UInt32) (memberMasks : List UInt32)
    (register : List UInt32 → List UInt32) : ExceptT cg.CatgraphError (Locked cg) Unit := do
  unless (← get).any (·.serves required memberMasks) do
    let (registry, scratch) ← takeRegistryAndScratch cg
    let registry := register registry
    let evaluator ← orLeave (buildEvaluator cg required memberMasks registry)
    set (some { required, memberMasks, candidateMasks := registry, evaluator, scratch } :
      Option (EvaluatorCache cg))

/-- The magnitude of the members, from the cache. -/
def cachedBase (required : UInt32) (memberMasks : List UInt32) :
    ExceptT cg.CatgraphError (Locked cg) K := do
  rebuildUnlessServed cg required memberMasks id
  return cg.baseValue (← populated cg).evaluator

/-- Where the candidate is in the registry of the cache, which is then for these members. -/
def ensureCachedCandidate (required : UInt32) (memberMasks : List UInt32)
    (candidateCaps : UInt32) : ExceptT cg.CatgraphError (Locked cg) Nat := do
  rebuildUnlessServed cg required memberMasks fun registry ↦
    if candidateCaps ∈ registry then registry else registry ++ [candidateCaps]
  match (← populated cg).candidateMasks.idxOf? candidateCaps with
  | some pos => return pos
  | none =>
      -- the entry is put back only after the evaluator is built
      let entry ← populated cg
      set (none : Option (EvaluatorCache cg))
      let registry :=
        (if registryCap ≤ entry.candidateMasks.length then [] else entry.candidateMasks) ++
          [candidateCaps]
      let evaluator ← orLeave (buildEvaluator cg required entry.memberMasks registry)
      set (some { entry with candidateMasks := registry, evaluator } : Option (EvaluatorCache cg))
      return registry.length - 1

/-- The magnitude without and with the candidate. -/
structure CandidateEval where
  base : K
  magWith : Except cg.CatgraphError K

def cachedBaseAndWith (required : UInt32) (memberMasks : List UInt32) (candidateCaps : UInt32) :
    ExceptT cg.CatgraphError (Locked cg) (CandidateEval cg) := do
  let pos ← ensureCachedCandidate cg required memberMasks candidateCaps
  let entry ← populated cg
  let base := cg.baseValue entry.evaluator
  let (magWith, scratch) :=
    cg.valueWithScratch entry.evaluator (entry.memberMasks.length + pos) entry.scratch
  set (some { entry with scratch } : Option (EvaluatorCache cg))
  return { base, magWith }

/-! ## The policy -/

/-- The masks with and without the agent, which is not of the coalition. -/
def joinMasks (agent : CapabilityAgent) (coalition : List CapabilityAgent) (required : UInt32) :
    List UInt32 × List UInt32 :=
  (relevantMasks (coalition ++ [agent]) required, relevantMasks coalition required)

/-- The masks with and without the agent, which is of the coalition. -/
def leaveMasks (agent : CapabilityAgent) (coalition : List CapabilityAgent) (required : UInt32) :
    List UInt32 × List UInt32 :=
  (relevantMasks coalition required,
    relevantMasks (coalition.filter fun a ↦ a.id ≠ agent.id) required)

def joinDispatch (required : UInt32) (masksWith masksWithout : List UInt32)
    (candidateCaps : UInt32) (joinMargin : K) : Locked cg (Decision K) := do
  if masksWithout.isEmpty then
    return joinDecisionFromValues (magnitudeOrZero cg masksWith required)
      (magnitudeOrZero cg masksWithout required) joinMargin
  else if masksWith.length = masksWithout.length then
    -- the candidate does not count
    match ← (cachedBase cg required masksWithout).run with
    | .ok base =>
        return joinDecisionFromValues (.ok base : Except cg.CatgraphError K) (.ok base) joinMargin
    | .error _ => return decline
  else
    match ← (cachedBaseAndWith cg required masksWithout candidateCaps).run with
    | .ok eval =>
        let magWith :=
          offKnifeEdge (magnitudeOfMasks cg masksWith required) eval.magWith eval.base joinMargin
        return joinDecisionFromValues magWith (.ok eval.base) joinMargin
    | .error _ => return decline

def leaveDispatchEvaluator (required : UInt32) (masksIn masksOut : List UInt32)
    (leaverCaps : UInt32) : Locked cg (Decision K) := do
  if masksOut.isEmpty then
    return leaveDecisionFromValues (magnitudeOrZero cg masksIn required)
      (magnitudeOrZero cg masksOut required)
  else if masksIn.length = masksOut.length then
    -- the leaver does not count
    match ← (cachedBase cg required masksOut).run with
    | .ok base => return leaveDecisionFromValues (.ok base : Except cg.CatgraphError K) (.ok base)
    | .error _ => return decline
  else
    match ← (cachedBaseAndWith cg required masksOut leaverCaps).run with
    | .ok eval =>
        let magWith :=
          offKnifeEdge (magnitudeOfMasks cg masksIn required) eval.magWith eval.base 0
        return leaveDecisionFromValues magWith (.ok eval.base)
    | .error _ => return decline

/-- The sides with and without the agent, which is not of the coalition. -/
def typedJoinSides (cfg : TypedConfig cg) (agent : CapabilityAgent)
    (coalition : List CapabilityAgent) (required : UInt32) : Option (TypedSide × TypedSide) := do
  let without ← typedRelevantMasks coalition required cfg.roles
  let withAgent ← typedRelevantMasks (coalition ++ [agent]) required cfg.roles
  return (withAgent, without)

/-- The sides with and without the agent, which is of the coalition. -/
def typedLeaveSides (cfg : TypedConfig cg) (agent : CapabilityAgent)
    (coalition : List CapabilityAgent) (required : UInt32) : Option (TypedSide × TypedSide) := do
  let sideIn ← typedRelevantMasks coalition required cfg.roles
  let sideOut ←
    typedRelevantMasks (coalition.filter fun a ↦ a.id ≠ agent.id) required cfg.roles
  return (sideIn, sideOut)

def typedJoinDispatch (cfg : TypedConfig cg) (required : UInt32) (withAgent without : TypedSide)
    (joinMargin : K) : Decision K :=
  joinDecisionFromValues (typedMagnitudeOrZero cg withAgent required cfg.rho)
    (typedMagnitudeOrZero cg without required cfg.rho) joinMargin

def typedLeaveDispatch (cfg : TypedConfig cg) (required : UInt32) (sideIn sideOut : TypedSide) :
    Decision K :=
  leaveDecisionFromValues (typedMagnitudeOrZero cg sideIn required cfg.rho)
    (typedMagnitudeOrZero cg sideOut required cfg.rho)

/-- The magnitude as the value of some agents. -/
structure MagnitudeValueCalculator where
  requiredCapabilities : UInt32
  typed : Option (TypedConfig cg)

namespace MagnitudeValueCalculator

variable {cg}

/-- The calculator with roles. -/
def withRoleModulation (calculator : MagnitudeValueCalculator cg) (cfg : TypedConfig cg) :
    MagnitudeValueCalculator cg :=
  { calculator with typed := some cfg }

/-- There is no value where there is no magnitude: it is minus infinity. -/
def calculateValue (calculator : MagnitudeValueCalculator cg) (agents : List CapabilityAgent) :
    Locked cg (Option K) := do
  let required := calculator.requiredCapabilities
  match calculator.typed with
  | some cfg =>
      match typedRelevantMasks agents required cfg.roles with
      | none => return none
      | some side => return (typedMagnitudeOrZero cg side required cfg.rho).toOption
  | none =>
      let masks := relevantMasks agents required
      if masks.isEmpty then return some 0
      else
        match ← (cachedBase cg required masks).run with
        | .ok m => return some m
        | .error _ => return none

end MagnitudeValueCalculator

/-- How a leave is evaluated. -/
inductive LeaveVariant where
  /-- Both sides afresh. -/
  | fresh
  /-- With the evaluator of the members that stay. -/
  | evaluator
deriving DecidableEq, Repr

structure MagnitudePolicy where
  joinMargin : K
  leaveVariant : LeaveVariant
  typed : Option (TypedConfig cg)

namespace MagnitudePolicy

variable {cg}

/-- The policy with roles. -/
def withRoleModulation (policy : MagnitudePolicy cg) (cfg : TypedConfig cg) : MagnitudePolicy cg :=
  { policy with typed := some cfg }

def shouldJoin (policy : MagnitudePolicy cg) (agent : CapabilityAgent)
    (coalition : List CapabilityAgent) (ctx : DecisionContext) : Locked cg (Decision K) := do
  let required := ctx.requiredCapabilities
  match policy.typed with
  | some cfg =>
      match typedJoinSides cg cfg agent coalition required with
      | none => return decline
      | some (withAgent, without) =>
          return typedJoinDispatch cg cfg required withAgent without policy.joinMargin
  | none =>
      let (masksWith, masksWithout) := joinMasks agent coalition required
      joinDispatch cg required masksWith masksWithout agent.capabilities policy.joinMargin

def shouldLeave (policy : MagnitudePolicy cg) (agent : CapabilityAgent)
    (coalition : List CapabilityAgent) (ctx : DecisionContext) : Locked cg (Decision K) := do
  let required := ctx.requiredCapabilities
  match policy.typed with
  | some cfg =>
      match typedLeaveSides cg cfg agent coalition required with
      | none => return decline
      | some (sideIn, sideOut) => return typedLeaveDispatch cg cfg required sideIn sideOut
  | none =>
      let (masksIn, masksOut) := leaveMasks agent coalition required
      match policy.leaveVariant with
      | .fresh =>
          return leaveDecisionFromValues (magnitudeOrZero cg masksIn required)
            (magnitudeOrZero cg masksOut required)
      | .evaluator => leaveDispatchEvaluator cg required masksIn masksOut agent.capabilities

/-- The policy as it is consulted.  It is not told about tasks. -/
def consulted (policy : MagnitudePolicy cg) : Policy (Option (EvaluatorCache cg)) K where
  shouldJoin := policy.shouldJoin
  shouldLeave := policy.shouldLeave
  beginTask _ := return
  observeOutcome _ _ _ := return

end MagnitudePolicy

end Koalisi.Decision
