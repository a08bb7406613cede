import Koalisi.Decision.Magnitude

/-!
# Other policies

A threshold policy compares the marginal value of an agent with a threshold, for whatever
value calculator it is given.

A residual policy wraps a magnitude policy.  It corrects the magnitude margin by the price of
the steps that only the agent can perform, and decides again.  It first looks itself whether
the magnitudes can be computed, and declines, and counts that, where they cannot.  Where an
agent has no role, it leaves the decision to the policy it wraps.
-/

namespace Koalisi.Decision

open Koalisi.Harness (CapabilityAgent Policy Step)
open Koalisi.Topology (Decision DecisionContext U64)

variable {K : Type} [Field K] [LinearOrder K]

/-! ## Thresholds -/

/-- The value of some agents; there is none if it is not finite. -/
abbrev ValueCalculator (K : Type) := List CapabilityAgent → Option K

structure ThresholdPolicy (K : Type) where
  calculator : ValueCalculator K
  joinThreshold : K
  leaveThreshold : K

namespace ThresholdPolicy

/-- The difference of two values, which is finite only if both are. -/
def marginal (valueWith valueWithout : Option K) : Option K := do
  return (← valueWith) - (← valueWithout)

def shouldJoin (policy : ThresholdPolicy K) (agent : CapabilityAgent)
    (coalition : List CapabilityAgent) (_ : DecisionContext) : Decision K :=
  let valueWithout := policy.calculator coalition
  let valueWith := policy.calculator (coalition ++ [agent])
  match marginal valueWith valueWithout with
  | none => decline
  | some m => { act := policy.joinThreshold ≤ m, score := m }

def shouldLeave (policy : ThresholdPolicy K) (agent : CapabilityAgent)
    (coalition : List CapabilityAgent) (_ : DecisionContext) : Decision K :=
  let valueWith := policy.calculator coalition
  let valueWithout := policy.calculator (coalition.filter fun a ↦ a.id ≠ agent.id)
  match marginal valueWith valueWithout with
  | none => decline
  | some m => { act := m < policy.leaveThreshold, score := m }

/-- The policy as it is consulted. -/
def consulted (policy : ThresholdPolicy K) : Policy Unit K where
  shouldJoin agent coalition ctx := return policy.shouldJoin agent coalition ctx
  shouldLeave agent coalition ctx := return policy.shouldLeave agent coalition ctx
  beginTask _ := return
  observeOutcome _ _ _ := return

end ThresholdPolicy

/-! ## Residuals -/

/-- The steps that are charged for when nobody can perform them, with their prices. -/
structure Residual where
  priced : List (Step × U64)
deriving DecidableEq, Repr

/-- The sum, or the largest number there is. -/
def saturatingAdd (a b : U64) : U64 := if h : a.val + b.val < 2 ^ 64 then ⟨a.val + b.val, h⟩ else -1

/-- The difference, or zero. -/
def saturatingSub (a b : U64) : U64 := if b ≤ a then a - b else 0

/-- Whether anybody of the staff has the step's role and holds its bit. -/
def stepStaffed (staff : List (RoleId × UInt32)) (step : Step) : Bool :=
  step.capabilityMask.any fun mask ↦
    staff.any fun (role, caps) ↦ role = step.role.toNat ∧ caps &&& mask ≠ 0

variable (cg : CatgraphMagnitude K)

/-- Whether one of the two sides has no magnitude, without roles. -/
def evaluationFailed (left right : List CapabilityAgent) (required : UInt32) : Bool :=
  let probe (members : List CapabilityAgent) : Bool :=
    match magnitudeOrZero cg (relevantMasks members required) required with
    | .ok _ => false
    | .error _ => true
  probe left || probe right

structure ResidualPolicy where
  inner : MagnitudePolicy cg
  roles : Nat → Option RoleId
  lambda : K
  lambda_nonneg : 0 ≤ lambda
  residual : Residual

/-- The cache of the inner policy, and how many decisions were declined. -/
structure ResidualState where
  cache : Option (EvaluatorCache cg)
  declines : Nat

namespace ResidualPolicy

variable {cg}

/-- A negative coefficient becomes zero. -/
def new (inner : MagnitudePolicy cg) (roles : Nat → Option RoleId) (lambda : K)
    (residual : Residual) : ResidualPolicy cg where
  inner
  roles
  lambda := if 0 ≤ lambda then lambda else 0
  lambda_nonneg := by
    split
    · assumption
    · exact le_rfl
  residual

def staffOf (policy : ResidualPolicy cg) (agent : CapabilityAgent) : Option (RoleId × UInt32) := do
  return (← policy.roles agent.id, agent.capabilities)

def staff (policy : ResidualPolicy cg) (members : List CapabilityAgent) :
    Option (List (RoleId × UInt32)) :=
  members.mapM policy.staffOf

/-- The price of the steps that nobody of the staff can perform. -/
def uncovered (policy : ResidualPolicy cg) (staff : List (RoleId × UInt32)) : U64 :=
  (policy.residual.priced.filter fun (step, _) ↦ !stepStaffed staff step).foldl
    (fun acc (_, price) ↦ saturatingAdd acc price) 0

/-- How much more the first staff leaves uncovered, at the policy's rate. -/
def correction (policy : ResidualPolicy cg) (without withAgent : List (RoleId × UInt32)) : K :=
  policy.lambda * ((saturatingSub (policy.uncovered without) (policy.uncovered withAgent)).val : K)

/-- A decline that is counted. -/
def countedDecline : StateT (ResidualState cg) Option (Decision K) := do
  modify fun s ↦ { s with declines := s.declines + 1 }
  return decline

/-- Decide again by the corrected score. -/
def fold (base : Decision K) (correction : K) (act : K → Bool) : Decision K :=
  if !isFinite base.score then base
  else
    let score := base.score + correction
    { act := act score, score }

/-- Ask the inner policy. -/
def askInner (x : Locked cg (Decision K)) : StateT (ResidualState cg) Option (Decision K) :=
  fun s ↦ do
    let (decision, cache) ← x.run s.cache
    return (decision, { s with cache })

def shouldJoin (policy : ResidualPolicy cg) (agent : CapabilityAgent)
    (coalition : List CapabilityAgent) (ctx : DecisionContext) :
    StateT (ResidualState cg) Option (Decision K) := do
  match policy.staff coalition, policy.staffOf agent with
  | some without, some joined =>
      if evaluationFailed cg coalition (coalition ++ [agent]) ctx.requiredCapabilities then
        countedDecline
      else
        let base ← askInner (policy.inner.shouldJoin agent coalition ctx)
        return fold base (policy.correction without (without ++ [joined]))
          fun score ↦ policy.inner.joinMargin < score
  | _, _ => askInner (policy.inner.shouldJoin agent coalition ctx)

def shouldLeave (policy : ResidualPolicy cg) (agent : CapabilityAgent)
    (coalition : List CapabilityAgent) (ctx : DecisionContext) :
    StateT (ResidualState cg) Option (Decision K) := do
  let remaining := coalition.filter fun a ↦ a.id ≠ agent.id
  match policy.staff coalition, policy.staff remaining with
  | some inside, some outside =>
      if evaluationFailed cg coalition remaining ctx.requiredCapabilities then
        countedDecline
      else
        let base ← askInner (policy.inner.shouldLeave agent coalition ctx)
        return fold base (policy.correction outside inside) fun score ↦ score ≤ 0
  | _, _ => askInner (policy.inner.shouldLeave agent coalition ctx)

/-- The policy as it is consulted.  It is not told about tasks. -/
def consulted (policy : ResidualPolicy cg) : Policy (ResidualState cg) K where
  shouldJoin := policy.shouldJoin
  shouldLeave := policy.shouldLeave
  beginTask _ := return
  observeOutcome _ _ _ := return

end ResidualPolicy

end Koalisi.Decision
