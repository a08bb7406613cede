import Koalisi.Decision.Query

/-!
# Deciding by expected free energy

Two arms go from what a coalition covers of the task to an expected free energy `G`, of which
less is better.  The first makes one number of it, the fraction of the required bits that are
covered, and blends that with what the agent believes of its partners.  The second keeps the
bits apart: it has an observation modality for each required bit.

An agent joins if `G` of the coalition with it is lower than `G` of the agent alone, by more
than a margin.  It leaves if `G` of the coalition without it is not higher.  So a join looks at
the agent alone, and a leave at the others alone.

The engine is a parameter, and so are the floating-point numbers.  Where the engine fails, `G`
is infinite, and what is infinite is `none` here.
-/

namespace Koalisi.Decision

open Koalisi.Lib.Masks
open Koalisi.Harness (CapabilityAgent)
open Koalisi.Topology (Decision DecisionContext)

/-! ## The engine -/

/-- How a competence becomes the precision of an observation. -/
structure ObsPrecisionParams (F : Type) where
  maxPrecision : F
  successPreference : F
  alpha : F
  transitionNoise : F

/-- What the two arms use of the engine. -/
structure BridgeAif (F : Type) extends Aif F where
  /-- The parameters of an agent of which nothing is set. -/
  defaultParams : AgentParams F
  competenceEfe : F → ObsPrecisionParams F → Except AifError F
  expectedFreeEnergy : POMDPAgent → F
  TrustBeliefs : Type
  CompatibilityBeliefs : Type
  CoalitionHistory : Type
  /-- The first entry of the preference of an agent among members. -/
  beliefWeightedPreference : Nat → List Nat → TrustBeliefs → CompatibilityBeliefs →
    CoalitionHistory → F

/-! ## Coverage -/

section Arms

variable {F : Type} [FloatingPoint F]

/-- Bring a number into a range. -/
def clamp (x lo hi : F) : F := if x < lo then lo else if hi < x then hi else x

/-- The fraction of the required bits that are covered. -/
def coverage (caps required : UInt32) : F :=
  if required = 0 then 1.0
  else (countOnes (caps &&& required) : F) / (countOnes required : F)

/-- Tunable parameters of the two arms. -/
structure BridgeParams (F : Type) where
  /-- The precision at full coverage. -/
  maxPrecision : F
  /-- The preference for success. -/
  successPreference : F
  alpha : F
  /-- How much beliefs count in a competence. -/
  beliefWeight : F

namespace BridgeParams

def default : BridgeParams F where
  maxPrecision := 0.95
  successPreference := 0.9
  alpha := 8.0
  beliefWeight := 0.0

end BridgeParams

/-! ## The rules

Both arms have the same two rules. -/

/-- A difference, if it is finite. -/
def finiteDifference (x y : Option F) : Option F := do
  let difference := (← x) - (← y)
  if FloatingPoint.isFinite difference then some difference else none

/-- Join if that lowers `G` by more than the margin. -/
def joinDecisionFromG (gAlone gCoalition : Option F) (joinMargin : F) : Decision F :=
  match finiteDifference gAlone gCoalition with
  | none => { act := false, score := 0.0 }
  | some margin => { act := joinMargin < margin, score := margin }

/-- Leave if that does not raise `G`. -/
def leaveDecisionFromG (gIn gOut : Option F) : Decision F :=
  match finiteDifference gOut gIn with
  | none => { act := false, score := 0.0 }
  | some delta => { act := delta ≤ 0.0, score := delta }

variable (aif : BridgeAif F)

/-! ## One number -/

/-- The expected free energy of a competence. -/
def CapabilityModel.efeForCoverage (cov : F) (params : BridgeParams F) : Except aif.AifError F :=
  aif.competenceEfe cov
    { maxPrecision := params.maxPrecision
      successPreference := params.successPreference
      alpha := params.alpha
      transitionNoise := 0.0 }

structure AifDecisionPolicy where
  params : BridgeParams F
  joinMargin : F
  trust : aif.TrustBeliefs
  compat : aif.CompatibilityBeliefs
  history : aif.CoalitionHistory

namespace AifDecisionPolicy

def gAt (competence : F) (params : BridgeParams F) : Option F :=
  (CapabilityModel.efeForCoverage aif competence params).toOption

/-- Blend a coverage with the agent's alignment with its partners. -/
def blendedCompetence (coverage alignment beliefWeight : F) : F :=
  let w := clamp beliefWeight 0.0 1.0
  clamp ((1.0 - w) * coverage + w * alignment) 0.0 1.0

variable {aif}

/-- What the agent believes of the members; neutral if beliefs do not count. -/
def alignment (policy : AifDecisionPolicy aif) (agent : Nat) (members : List Nat) : F :=
  if policy.params.beliefWeight ≤ 0.0 then 0.5
  else aif.beliefWeightedPreference agent members policy.trust policy.compat policy.history

variable (aif) in
def joinDecisionFromCompetences (compAlone compCoalition : F) (params : BridgeParams F)
    (joinMargin : F) : Decision F :=
  joinDecisionFromG (gAt aif compAlone params) (gAt aif compCoalition params) joinMargin

variable (aif) in
def leaveDecisionFromCompetences (compIn compOut : F) (params : BridgeParams F) : Decision F :=
  leaveDecisionFromG (gAt aif compIn params) (gAt aif compOut params)

def memberIds (coalition : List CapabilityAgent) (extra : Option Nat) : List Nat :=
  coalition.map (·.id) ++ extra.toList

/-- The competences of the agent alone and in the coalition. -/
def joinCompetences (policy : AifDecisionPolicy aif) (agent : CapabilityAgent)
    (coalition : List CapabilityAgent) (ctx : DecisionContext) : F × F :=
  let required := ctx.requiredCapabilities
  let w := policy.params.beliefWeight
  let covAlone := coverage agent.capabilities required
  let covCoalition := coverage (unionCaps coalition ||| agent.capabilities) required
  let members := memberIds coalition (some agent.id)
  let alignCoalition := policy.alignment agent.id members
  (blendedCompetence covAlone 0.5 w, blendedCompetence covCoalition alignCoalition w)

/-- The competences with and without the agent. -/
def leaveCompetences (policy : AifDecisionPolicy aif) (agent : CapabilityAgent)
    (coalition : List CapabilityAgent) (ctx : DecisionContext) : F × F :=
  let required := ctx.requiredCapabilities
  let w := policy.params.beliefWeight
  let unionIn := unionCaps coalition
  let unionOut := unionCaps (coalition.filter fun a ↦ a.id ≠ agent.id)
  let covIn := coverage unionIn required
  let covOut := coverage unionOut required
  let membersIn := memberIds coalition none
  let alignIn := policy.alignment agent.id membersIn
  (blendedCompetence covIn alignIn w, blendedCompetence covOut 0.5 w)

/-- The coalition is without the agent. -/
def shouldJoin (policy : AifDecisionPolicy aif) (agent : CapabilityAgent)
    (coalition : List CapabilityAgent) (ctx : DecisionContext) : Decision F :=
  let (compAlone, compCoalition) := policy.joinCompetences agent coalition ctx
  joinDecisionFromCompetences aif compAlone compCoalition policy.params policy.joinMargin

/-- The coalition is with the agent. -/
def shouldLeave (policy : AifDecisionPolicy aif) (agent : CapabilityAgent)
    (coalition : List CapabilityAgent) (ctx : DecisionContext) : Decision F :=
  let (compIn, compOut) := policy.leaveCompetences agent coalition ctx
  leaveDecisionFromCompetences aif compIn compOut policy.params

end AifDecisionPolicy

/-! ## A modality for each bit -/

/-- The expected free energy of what is covered of the required bits. -/
def MultiModalModel.efeForCoverage (required covered : UInt32) (params : BridgeParams F) :
    Except aif.AifError F := do
  let mp := params.maxPrecision
  let sp := params.successPreference
  let precisions : List F :=
    if required = 0 then [mp]
    else (setBits required 32).map fun i ↦
      let covB : Nat := if covered &&& 1 <<< UInt32.ofNat i ≠ 0 then 1 else 0
      0.5 + (mp - 0.5) * (covB : F)
  let a : List (DMatrix F) := precisions.map fun p ↦ [[p, 1.0 - p], [1.0 - p, p]]
  let nMod := a.length
  -- each control sends all mass to the state of its number
  let b : List (DMatrix F) := (List.range 2).map fun u ↦
    (List.range 2).map fun row ↦ List.replicate 2 (if row = u then 1.0 else 0.0)
  let prefs : List F := [sp, 1.0 - sp]
  let agent ← aif.fromModel
    { a
      b := [b]
      c := List.replicate nMod prefs
      d := [[0.5, 0.5]] } { aif.defaultParams with alpha := params.alpha }
  return aif.expectedFreeEnergy agent

/-- The second arm has no beliefs. -/
structure AifMmDecisionPolicy (F : Type) where
  params : BridgeParams F
  joinMargin : F

namespace AifMmDecisionPolicy

def default : AifMmDecisionPolicy F where
  params := .default
  joinMargin := 0.0

def gAt (required covered : UInt32) (params : BridgeParams F) : Option F :=
  (MultiModalModel.efeForCoverage aif required covered params).toOption

def joinDecision (required alone coalition : UInt32) (params : BridgeParams F) (joinMargin : F) :
    Decision F :=
  joinDecisionFromG (gAt aif required alone params) (gAt aif required coalition params) joinMargin

def leaveDecision (required inMask outMask : UInt32) (params : BridgeParams F) : Decision F :=
  leaveDecisionFromG (gAt aif required inMask params) (gAt aif required outMask params)

/-- What the agent covers alone and with the coalition. -/
def joinMasks (agent : CapabilityAgent) (coalition : List CapabilityAgent) : UInt32 × UInt32 :=
  let alone := agent.capabilities
  (alone, unionCaps coalition ||| alone)

/-- What the coalition covers with and without the agent. -/
def leaveMasks (agent : CapabilityAgent) (coalition : List CapabilityAgent) : UInt32 × UInt32 :=
  (unionCaps coalition, unionCaps (coalition.filter fun a ↦ a.id ≠ agent.id))

/-- The coalition is without the agent. -/
def shouldJoin (policy : AifMmDecisionPolicy F) (agent : CapabilityAgent)
    (coalition : List CapabilityAgent) (ctx : DecisionContext) : Decision F :=
  let (alone, coalition) := joinMasks agent coalition
  joinDecision aif ctx.requiredCapabilities alone coalition policy.params policy.joinMargin

/-- The coalition is with the agent. -/
def shouldLeave (policy : AifMmDecisionPolicy F) (agent : CapabilityAgent)
    (coalition : List CapabilityAgent) (ctx : DecisionContext) : Decision F :=
  let (inMask, outMask) := leaveMasks agent coalition
  leaveDecision aif ctx.requiredCapabilities inMask outMask policy.params

end AifMmDecisionPolicy

end Arms

end Koalisi.Decision
