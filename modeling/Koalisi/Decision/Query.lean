import Mathlib.Algebra.Order.Ring.Rat
import Koalisi.Lib.Masks
import Koalisi.Harness.Workflow

/-!
# Queries to a persistent world model

A world model has a factor for each capability bit, which says how reliable the providers of
the bit are.  It learns from the outcomes of tasks.  A decision is read off a fresh query: a
model of the bits that the task requires, made from what the world model has learned, and of
one more factor that says whether the agent is in or out.  The last outcomes are replayed into
the query before it is read.

The engine is not modelled: it is a parameter, and so are the floating-point numbers, of which
nothing is assumed.  An index out of bounds is a panic.
-/

namespace Koalisi.Decision

open Koalisi.Lib.Masks
open Koalisi.Harness (CapabilityAgent)

/-- The operations of floating-point numbers. -/
class FloatingPoint (F : Type) extends Add F, Sub F, Mul F, Div F, Neg F, LT F, LE F, Max F,
    BEq F, NatCast F, OfScientific F where
  isFinite : F → Bool
  exp : F → F
  ln : F → F
  abs : F → F
  decidableLT (x y : F) : Decidable (x < y)
  decidableLE (x y : F) : Decidable (x ≤ y)

attribute [reducible, instance] FloatingPoint.decidableLT FloatingPoint.decidableLE

/-! ## Vectors and matrices -/

section Matrices

variable {F : Type}

/-- A matrix, row by row. -/
abbrev DMatrix (F : Type) := List (List F)

namespace DMatrix

/-- A matrix by its entries. -/
def fromFn (nrows ncols : Nat) (f : Nat → Nat → Option F) : Option (DMatrix F) :=
  (List.range nrows).mapM fun row ↦ (List.range ncols).mapM fun col ↦ f row col

def entry (m : DMatrix F) (row col : Nat) : Option F := do (← m[row]?)[col]?

end DMatrix

variable [FloatingPoint F]

/-- The sum, from left to right. -/
def floatSum (v : List F) : F := v.foldl (· + ·) 0.0

/-- Divide every column by its sum, unless that is too small. -/
def columnNormalize (m : DMatrix F) : DMatrix F :=
  m.map fun row ↦ row.zipIdx.map fun (x, j) ↦
    let s := floatSum (m.filterMap (·[j]?))
    if 1e-10 < s then x / s else x

def normalize (v : List F) : List F :=
  let s := floatSum v
  v.map (· / if 0.0 < s then s else 1.0)

/-- Multiply each block by its factor, where there is one that is positive and finite. -/
def scalePaCounts (paCounts : List (DMatrix F)) (scale : List F) : List (DMatrix F) :=
  paCounts.zipIdx.map fun (block, m) ↦
    let s := scale.getD m 1.0
    -- a factor of one leaves the block untouched
    if FloatingPoint.isFinite s ∧ 0.0 < s ∧ ¬(s == (1.0 : F)) then block.map (·.map (· * s))
    else block

end Matrices

/-! ## The engine -/

structure GenerativeModel (F : Type) where
  /-- The likelihoods, for each modality. -/
  a : List (DMatrix F)
  /-- The transitions, for each factor and control. -/
  b : List (List (DMatrix F))
  /-- The preferences, for each modality. -/
  c : List (List F)
  /-- The initial beliefs, for each factor. -/
  d : List (List F)

inductive StateInference where
  | marginalMessagePassing (horizon iters : Nat)
  | meanField
deriving DecidableEq, Repr

/-- What is set of the parameters of an agent. -/
structure AgentParams (F : Type) where
  alpha : F
  policyDepth : Nat
  learnA : Bool
  learnB : Bool
  learnD : Bool
  useParamInfoGain : Bool
  useBInfoGain : Bool
  initialPa : Option (List (DMatrix F))
  initialPb : Option (List (List (DMatrix F)))
  initialPrecisionB : Option F
  initialPrecisionD : Option F
  stateInference : StateInference
  /-- Whether the default precision dynamics are on. -/
  precisionDynamics : Bool
  seed : UInt64
  /-- The default of the engine, unless it is set. -/
  gamma : Option F

/-- What is used of the engine. -/
structure Aif (F : Type) where
  AifError : Type
  POMDPAgent : Type
  fromModel : GenerativeModel F → AgentParams F → Except AifError POMDPAgent
  observationModel : POMDPAgent → List (DMatrix F)
  transitionModel : POMDPAgent → List (List (DMatrix F))
  /-- The learned counts, if the agent learns. -/
  pa : POMDPAgent → Option (List (DMatrix F))
  pb : POMDPAgent → Option (List (List (DMatrix F)))
  /-- The beliefs at the nodes of the window, from the first to the last. -/
  bmaStateBeliefs : POMDPAgent → List (List (List F))
  stateBeliefs : POMDPAgent → List (List F)
  recordAction : POMDPAgent → Nat → POMDPAgent
  /-- Observe an outcome for each modality; the answer is a posterior over the actions. -/
  actionProbabilitiesMulti : POMDPAgent → List Nat → Except AifError (List F) × POMDPAgent
  resetWindow : POMDPAgent → POMDPAgent

/-! ## The fixed numbers -/

/-- The width of a world model, if nothing else is said. -/
def nBits : Nat := 8

def minNBits : Nat := 1

def maxNBits : Nat := 16

/-- There are three outcomes: success, failure, and nothing observed. -/
def nOutcomes : Nat := 3

def success : Nat := 0

def failure : Nat := 1

def noObs : Nat := 2

def queryHorizon : Nat := 2

def queryIters : Nat := 10

def queryPolicyDepth : Nat := 2

def persistentHorizon : Nat := 2

def persistentIters : Nat := 10

/-- How many outcomes are replayed. -/
def replayCap : Nat := 2

section Numbers

variable (F : Type) [FloatingPoint F]

def reliableCol : List F := [0.45, 0.05, 0.50]

def unreliableCol : List F := [0.30, 0.20, 0.50]

def sticky : F := 0.9

def cRaw : List F := [0.9, 0.1, 0.3]

def queryAlpha : F := 8.0

def persistentInitialPrecisionD : F := 1.0

end Numbers

/-! ## Configuration -/

/-- When the window of the world model is reset. -/
inductive TrialBoundary where
  | perTask
  | perStream
deriving DecidableEq, Repr

structure PersistentAifConfig (F : Type) where
  trialBoundary : TrialBoundary
  persistentLearning : Bool
  queryDynamics : Bool
  queryNovelty : Bool
  initialPrecisionB : F
  /-- How many leaves there may be in a task. -/
  evictionCap : Option UInt32
  /-- For how many tasks an agent that has left may not join again. -/
  rejoinLockoutTasks : UInt64
  queryGamma : Option F
  /-- The width of the world model. -/
  nBits : Nat

namespace PersistentAifConfig

variable {F : Type} [FloatingPoint F]

/-- The registered configuration. -/
def default : PersistentAifConfig F where
  trialBoundary := .perStream
  persistentLearning := true
  queryDynamics := true
  queryNovelty := true
  initialPrecisionB := 4.0
  evictionCap := none
  rejoinLockoutTasks := 0
  queryGamma := none
  nBits := Decision.nBits

/-- The width is brought into range. -/
def clamped (config : PersistentAifConfig F) : PersistentAifConfig F :=
  { config with nBits := max minNBits (min maxNBits config.nBits) }

end PersistentAifConfig

/-- The bits of a world model. -/
def lowMask (nBits : Nat) : UInt32 := (1 <<< UInt32.ofNat nBits) - 1

/-- The bits of a mask, in order. -/
def setBits (mask : UInt32) (nBits : Nat) : List Nat :=
  (List.range nBits).filter fun b ↦ mask &&& 1 <<< UInt32.ofNat b ≠ 0

/-- All the capabilities of some agents. -/
def unionCaps (agents : List CapabilityAgent) : UInt32 :=
  agents.foldl (fun acc a ↦ acc ||| a.capabilities) 0

/-- Mix a number. -/
def splitmix64 (x : UInt64) : UInt64 :=
  let z := x + 0x9E3779B97F4A7C15
  let z := (z ^^^ (z >>> 30)) * 0xBF58476D1CE4E5B9
  let z := (z ^^^ (z >>> 27)) * 0x94D049BB133111EB
  z ^^^ (z >>> 31)

/-! ## The world model -/

variable {F : Type} [FloatingPoint F] (aif : Aif F)

/-- What an arm keeps between calls. -/
structure Inner where
  agent : aif.POMDPAgent
  /-- The last outcomes, the oldest first. -/
  replay : List (List Nat)
  tasksObserved : Nat
  decisionCounter : UInt64
  batterySeed : UInt64
  /-- How many leaves were counted since the last task. -/
  evictionsThisTask : Nat
  /-- For each agent that has left, how many tasks there had been. -/
  evictedAt : Nat → Option Nat

/-- The world model before anything is learned. -/
def buildPersistentAgent (config : PersistentAifConfig F) (seed : UInt64) :
    Option (Except aif.AifError aif.POMDPAgent) := do
  let paCounts ← (List.range config.nBits).mapM fun m ↦
    DMatrix.fromFn nOutcomes (1 <<< config.nBits) fun row j ↦
      if (j >>> m) &&& 1 = 0 then (reliableCol F)[row]? else (unreliableCol F)[row]?
  let sticky : DMatrix F :=
    [[Decision.sticky F, 1.0 - Decision.sticky F], [1.0 - Decision.sticky F, Decision.sticky F]]
  let learn := config.persistentLearning
  let params : AgentParams F :=
    { alpha := 1.0
      policyDepth := 1
      learnA := learn
      learnB := learn
      learnD := learn
      useParamInfoGain := learn
      useBInfoGain := learn
      initialPa := if learn then some paCounts else none
      initialPb := none
      initialPrecisionB := if learn then some config.initialPrecisionB else none
      initialPrecisionD := if learn then some (persistentInitialPrecisionD F) else none
      stateInference := .marginalMessagePassing persistentHorizon persistentIters
      precisionDynamics := false
      seed
      gamma := none }
  return aif.fromModel
    { a := paCounts
      b := List.replicate config.nBits [sticky]
      c := List.replicate config.nBits [0.5, 0.5, 0.5]
      d := List.replicate config.nBits [0.5, 0.5] } params

/-- The beliefs at the last node of the window, if it has one. -/
def currentBeliefs (agent : aif.POMDPAgent) : List (List F) :=
  (aif.bmaStateBeliefs agent).getLast?.getD (aif.stateBeliefs agent)

/-! ## Queries -/

/-- What is known of a bit in a state: the learned counts, or the model as it was built. -/
def persistentBitCount (pa : Option (List (DMatrix F))) (obsModel : List (DMatrix F))
    (bit sBit row : Nat) : Option F := do
  let col := sBit <<< bit
  match pa with
  | some pa => (← pa[bit]?).entry row col
  | none => (← obsModel[bit]?).entry row col

/-- A query for a decision between two coverages, with the outcomes to be replayed. -/
def buildQuery (inner : Inner aif) (config : PersistentAifConfig F) (seed : UInt64)
    (required cfg0 cfg1 : UInt32) (countScale : Option (List F)) :
    Option (Except aif.AifError (aif.POMDPAgent × List (List Nat))) := do
  let requiredBits := setBits required config.nBits
  let r := requiredBits.length
  let beliefs := currentBeliefs aif inner.agent
  -- what is covered is as the world model has learned it, and what is not is flat
  let counts ← requiredBits.zipIdx.mapM fun (bit, m) ↦
    DMatrix.fromFn nOutcomes (1 <<< (r + 1)) fun row j ↦
      let coverMask := if (j >>> r) &&& 1 = 0 then cfg0 else cfg1
      if coverMask &&& 1 <<< UInt32.ofNat bit ≠ 0 then
        persistentBitCount (aif.pa inner.agent) (aif.observationModel inner.agent) bit
          ((j >>> m) &&& 1) row
      else some 1.0
  let paCounts := match countScale with
    | some scale => scalePaCounts counts scale
    | none => counts
  let drift ← requiredBits.mapM fun bit ↦
    match aif.pb inner.agent with
    | some pb => pb[bit]?
    | none => do return [← (← (aif.transitionModel inner.agent)[bit]?)[0]?]
  let membership : List (DMatrix F) := [[[1.0, 1.0], [0.0, 0.0]], [[0.0, 0.0], [1.0, 1.0]]]
  let pbCounts := drift ++ [membership]
  let d ← requiredBits.mapM fun bit ↦ do
    let belief ← beliefs[bit]?
    let reliable ← belief[0]?
    let unreliable ← belief[1]?
    let s := max (reliable + unreliable) 1e-12
    return [reliable / s, unreliable / s]
  let queryLearn := config.persistentLearning
  let queryNovelty := queryLearn && config.queryNovelty
  let params : AgentParams F :=
    { alpha := queryAlpha F
      policyDepth := queryPolicyDepth
      learnA := queryLearn
      learnB := queryLearn
      learnD := false
      useParamInfoGain := queryNovelty
      useBInfoGain := queryNovelty
      initialPa := if queryLearn then some paCounts else none
      initialPb := if queryLearn then some pbCounts else none
      initialPrecisionB := none
      initialPrecisionD := none
      stateInference :=
        if config.queryDynamics then .marginalMessagePassing queryHorizon queryIters
        else .meanField
      precisionDynamics := config.queryDynamics
      seed
      gamma := config.queryGamma }
  match aif.fromModel
    { a := paCounts.map columnNormalize
      b := pbCounts.map (·.map columnNormalize)
      c := List.replicate r (normalize (cRaw F))
      d := d ++ [[1.0, 0.0]] } params with
  | .error e => return .error e
  | .ok query => do
      let replaySeqs ← inner.replay.mapM fun full ↦ requiredBits.mapM fun b ↦ full[b]?
      return .ok (query, replaySeqs)

/-- Replay outcomes into a query and read it; without any, it is read with nothing observed. -/
def runReplay (query : aif.POMDPAgent) (seqs : List (List Nat)) (r : Nat) :
    Except aif.AifError (List F) × aif.POMDPAgent :=
  go none query seqs
where
  /-- From here on, with the last answer. -/
  go (last : Option (List F)) (query : aif.POMDPAgent) :
      List (List Nat) → Except aif.AifError (List F) × aif.POMDPAgent
    | [] =>
        match last with
        | some d => (.ok d, query)
        | none =>
            aif.actionProbabilitiesMulti (aif.recordAction query 0) (List.replicate r noObs)
    | obs :: seqs =>
        match aif.actionProbabilitiesMulti (aif.recordAction query 0) obs with
        | (.error e, query) => (.error e, query)
        | (.ok d, query) => go (some d) query seqs

/-! ## A sample engine -/

/-- Fractions in the place of floating-point numbers; the exponential and the logarithm are right
where there is no uncertainty, at zero and at one. -/
@[reducible] def exactNumbers : FloatingPoint ℚ where
  add := Rat.add
  sub := Rat.sub
  mul := Rat.mul
  div := Rat.div
  neg := Rat.neg
  lt x y := x < y
  le x y := x ≤ y
  max x y := if x ≤ y then y else x
  beq x y := x == y
  natCast n := (n : Int)
  ofScientific := Rat.ofScientific
  isFinite _ := true
  exp x := 1 + x
  ln x := x - 1
  abs x := if 0 ≤ x then x else -x
  decidableLT x y := inferInstanceAs (Decidable (x < y))
  decidableLE x y := inferInstanceAs (Decidable (x ≤ y))

/-- An engine that is always undecided, and learns nothing. -/
def undecidedAif : Aif ℚ where
  AifError := Unit
  POMDPAgent := GenerativeModel ℚ
  fromModel model _ := .ok model
  observationModel model := model.a
  transitionModel model := model.b
  pa _ := none
  pb _ := none
  bmaStateBeliefs _ := []
  stateBeliefs model := model.d
  recordAction model _ := model
  actionProbabilitiesMulti model _ := (.ok [1 / 2, 1 / 2], model)
  resetWindow model := model

end Koalisi.Decision
