import Mathlib.Algebra.Order.Ring.Rat
import Mathlib.Tactic.LinearCombination
import Mathlib.Tactic.Ring
import Koalisi.Decision.Admission
import Koalisi.Decision.Policies
import Koalisi.Lib.Literals

/-!
# Feedback from outcomes

A store counts for each agent the coalitions it was in, and those that fell short.  The feedback
calculator adds the counts of all members to the value of a base calculator.

The counts of the other members are in both values that a threshold policy compares, so only
those of the agent itself should move the difference.  The feedback calculator takes an empty
coalition to be worth nothing, whatever the base calculator takes it for: where the coalition is
empty without the agent, the difference is moved by what that is (`decomposes_iff`).
-/

namespace Koalisi.Algorithms

open Koalisi.Decision
open scoped Koalisi.Lib.Literals
open Koalisi.Harness (CapabilityAgent)
open Koalisi.Topology (Decision DecisionContext U64)

variable {K : Type} [Field K]

/-! ## The store -/

/-- What is counted of an agent. -/
structure AgentFeedback where
  /-- The coalitions that the agent was in. -/
  history : U64
  /-- Those of them that fell short. -/
  failures : U64
deriving DecidableEq, Repr

structure FeedbackStore where
  records : Nat → Option AgentFeedback

namespace FeedbackStore

def history (store : FeedbackStore) (agentId : Nat) : U64 :=
  ((store.records agentId).map (·.history)).getD 0

def failures (store : FeedbackStore) (agentId : Nat) : U64 :=
  ((store.records agentId).map (·.failures)).getD 0

end FeedbackStore

/-! ## The calculators -/

def historyUnit : K := 25

def failureUnit : K := 25

structure FeedbackCalculator (K : Type) where
  base : ValueCalculator K
  historyWeight : K
  failureWeight : K
  store : FeedbackStore

/-- An empty coalition is worth nothing, without asking the base calculator. -/
def FeedbackCalculator.calculateValue (self : FeedbackCalculator K) : ValueCalculator K :=
  fun agents ↦
    if agents.isEmpty then some 0
    else do
      let base ← self.base agents
      let records := agents.filterMap fun agent ↦ self.store.records agent.id
      let historyTotal : K := (records.map fun record ↦ (record.history.val : K)).sum
      let failureTotal : K := (records.map fun record ↦ (record.failures.val : K)).sum
      return base + self.historyWeight * historyUnit * historyTotal -
        self.failureWeight * failureUnit * failureTotal

/-- The base calculator of the engine: the negated expected free energy of what is covered. -/
structure EfeValueCalculator (F : Type) where
  requiredCapabilities : UInt32
  params : BridgeParams F

def EfeValueCalculator.calculateValue {F : Type} [FloatingPoint F] (aif : BridgeAif F)
    (self : EfeValueCalculator F) : ValueCalculator F := fun agents ↦
  match CapabilityModel.efeForCoverage aif
      (coverage (unionCaps agents) self.requiredCapabilities) self.params with
  | .ok g => if FloatingPoint.isFinite (-g) then some (-g) else none
  | .error _ => none

/-! ## What is added -/

namespace FeedbackCalculator

variable (self : FeedbackCalculator K)

/-- What the counts of an agent add to a value. -/
def credit (agentId : Nat) : K :=
  self.historyWeight * 25 * ((self.store.history agentId).val : K) -
    self.failureWeight * 25 * ((self.store.failures agentId).val : K)

/-- What the counts of some agents add. -/
def credits (agents : List CapabilityAgent) : K := (agents.map fun a ↦ self.credit a.id).sum

variable {self} {agents coalition : List CapabilityAgent} {agent : CapabilityAgent} {v w : K}

/-- The counts of some agents, of one of the two kinds. -/
theorem sum_records (records : Nat → Option AgentFeedback) (count : AgentFeedback → U64) :
    ((agents.filterMap fun a ↦ records a.id).map fun record ↦ ((count record).val : K)).sum =
      (agents.map fun a ↦ ((((records a.id).map count).getD 0).val : K)).sum := by
  induction agents with
  | nil => rfl
  | cons a agents ih =>
      rw [List.map_cons, List.sum_cons, ← ih, List.filterMap_cons]
      cases records a.id with
      | none =>
          change _ = ((0 : U64).val : K) + _
          rw [Fin.val_zero, Nat.cast_zero, zero_add]
      | some record => rfl

theorem credits_eq : self.credits agents =
    self.historyWeight * 25 * (agents.map fun a ↦ ((self.store.history a.id).val : K)).sum -
      self.failureWeight * 25 * (agents.map fun a ↦ ((self.store.failures a.id).val : K)).sum := by
  unfold credits credit
  induction agents with
  | nil =>
      simp only [List.map_nil, List.sum_nil]
      ring
  | cons a agents ih =>
      simp only [List.map_cons, List.sum_cons]
      linear_combination ih

/-- The base value and what the counts add, without the base value where there is nobody. -/
theorem calculateValue_eq (hbase : self.base agents = some v) :
    self.calculateValue agents =
      some (v + self.credits agents - if agents = [] then v else 0) := by
  cases agents with
  | nil =>
      rw [if_pos rfl]
      refine congrArg some ?_
      rw [credits, List.map_nil, List.sum_nil, add_zero, sub_self]
  | cons a agents =>
      rw [calculateValue, List.isEmpty_cons, if_neg Bool.false_ne_true, hbase,
        if_neg (List.cons_ne_nil _ _), sub_zero, credits_eq, ← add_sub_assoc]
      simp only [sum_records]
      rfl

theorem credits_concat : self.credits (agents ++ [agent]) =
    self.credits agents + self.credit agent.id := by
  rw [credits, List.map_append, List.sum_append, List.map_singleton, List.sum_singleton]
  rfl

theorem credits_filter (hids : (agents.map (·.id)).Nodup) (hmem : agent ∈ agents) :
    self.credits agents =
      self.credits (agents.filter fun a ↦ a.id ≠ agent.id) + self.credit agent.id := by
  rcases filter_id_ne (x := agent.id) hids with ⟨-, hnone⟩ | ⟨front, a, back, rfl, hid, hfilter⟩
  · exact absurd rfl (hnone agent hmem)
  · rw [hfilter, ← hid, credits, credits, List.map_append, List.map_append, List.map_cons,
      List.sum_append, List.sum_append, List.sum_cons]
    ring

/-! ## Decisions -/

/-- The difference of the values of a coalition with an agent and without it. -/
theorem marginal_eq {before after : List CapabilityAgent} (hne : after ≠ [])
    (hafter : self.base after = some v) (hbefore : self.base before = some w)
    (hcredits : self.credits after = self.credits before + self.credit agent.id) :
    ThresholdPolicy.marginal (self.calculateValue after) (self.calculateValue before) =
      some (v - w + self.credit agent.id + if before = [] then w else 0) := by
  rw [calculateValue_eq hafter, calculateValue_eq hbefore, if_neg hne, hcredits]
  refine congrArg some ?_
  ring

/-- Nothing else moves the difference. -/
def Decomposes (self : FeedbackCalculator K) (agent : CapabilityAgent) (feedback base : K) : Prop :=
  feedback = base + self.historyWeight * 25 * ((self.store.history agent.id).val : K) -
    self.failureWeight * 25 * ((self.store.failures agent.id).val : K)

/-- What the base calculator takes nobody for does not show: the coalition is not empty, or an
empty one is worth nothing. -/
def Harmless (self : FeedbackCalculator K) (before : List CapabilityAgent) : Prop :=
  before ≠ [] ∨ self.base [] = some 0

theorem decomposes_iff_harmless {before : List CapabilityAgent}
    (hbefore : self.base before = some w) :
    self.Decomposes agent (v - w + self.credit agent.id + if before = [] then w else 0) (v - w) ↔
      self.Harmless before := by
  rw [Decomposes, add_sub_assoc, ← credit, add_eq_left, Harmless]
  cases before with
  | nil =>
      rw [if_pos rfl, hbefore, Option.some_inj]
      exact (or_iff_right (not_not_intro rfl)).symm
  | cons a before =>
      rw [if_neg (List.cons_ne_nil _ _)]
      exact iff_of_true rfl (Or.inl (List.cons_ne_nil _ _))

theorem marginal_of_some {valueWith valueWithout : Option K} (hwith : valueWith = some v)
    (hwithout : valueWithout = some w) :
    ThresholdPolicy.marginal valueWith valueWithout = some (v - w) := by
  rw [hwith, hwithout]
  rfl

section Policies

variable [LinearOrder K]

theorem score_shouldJoin {policy : ThresholdPolicy K} {ctx : DecisionContext} {m : K}
    (h : ThresholdPolicy.marginal (policy.calculator (coalition ++ [agent]))
      (policy.calculator coalition) = some m) :
    (policy.shouldJoin agent coalition ctx).score = m := by
  unfold ThresholdPolicy.shouldJoin
  simp only [h]

theorem score_shouldLeave {policy : ThresholdPolicy K} {ctx : DecisionContext} {m : K}
    (h : ThresholdPolicy.marginal (policy.calculator coalition)
      (policy.calculator (coalition.filter fun a ↦ a.id ≠ agent.id)) = some m) :
    (policy.shouldLeave agent coalition ctx).score = m := by
  unfold ThresholdPolicy.shouldLeave
  simp only [h]

/-- Where the values are finite, the counts of the agent are all that moves a score, if and only
if the coalition is not empty without the agent, or the base calculator takes an empty coalition
for nothing. -/
theorem decomposes_iff (self : FeedbackCalculator K) (joinThreshold leaveThreshold : K)
    (agent : CapabilityAgent) (coalition : List CapabilityAgent) (ctx : DecisionContext)
    (hfinite : (self.base coalition).isSome) :
    ((self.base (coalition ++ [agent])).isSome →
      (self.Decomposes agent
          (ThresholdPolicy.shouldJoin ⟨self.calculateValue, joinThreshold, leaveThreshold⟩
            agent coalition ctx).score
          (ThresholdPolicy.shouldJoin ⟨self.base, joinThreshold, leaveThreshold⟩
            agent coalition ctx).score ↔
        self.Harmless coalition)) ∧
    ((coalition.map (·.id)).Nodup → agent ∈ coalition →
      (self.base (coalition.filter fun a ↦ a.id ≠ agent.id)).isSome →
      (self.Decomposes agent
          (ThresholdPolicy.shouldLeave ⟨self.calculateValue, joinThreshold, leaveThreshold⟩
            agent coalition ctx).score
          (ThresholdPolicy.shouldLeave ⟨self.base, joinThreshold, leaveThreshold⟩
            agent coalition ctx).score ↔
        self.Harmless (coalition.filter fun a ↦ a.id ≠ agent.id))) := by
  obtain ⟨v, hv⟩ := Option.isSome_iff_exists.mp hfinite
  constructor
  · intro hfinite
    obtain ⟨w, hw⟩ := Option.isSome_iff_exists.mp hfinite
    have hne : coalition ++ [agent] ≠ [] :=
      List.append_ne_nil_of_right_ne_nil _ (List.cons_ne_nil _ _)
    rw [score_shouldJoin (marginal_eq hne hw hv credits_concat),
      score_shouldJoin (marginal_of_some hw hv)]
    exact decomposes_iff_harmless hv
  · intro hids hmem hfinite
    obtain ⟨w, hw⟩ := Option.isSome_iff_exists.mp hfinite
    have hne : coalition ≠ [] := List.ne_nil_of_mem hmem
    rw [score_shouldLeave (marginal_eq hne hv hw (credits_filter hids hmem)),
      score_shouldLeave (marginal_of_some hv hw)]
    exact decomposes_iff_harmless hw

end Policies

/-! ### A coalition that is empty without the agent -/

section Sample

attribute [local instance] exactNumbers

/-- An engine whose expected free energy is positive, and lower where more is covered. -/
def positiveAif : BridgeAif ℚ := { preciseAif with
  competenceEfe competence _ := .ok (2 - competence) }

/-- One agent was in two coalitions, of which one fell short. -/
def oneRecord : FeedbackStore where
  records id := if id = 0 then some { history := 2, failures := 1 } else none

/-- Feedback on the expected free energy of a task with one bit. -/
def efeFeedback : FeedbackCalculator ℚ where
  base := EfeValueCalculator.calculateValue positiveAif
    { requiredCapabilities := 1, params := .default }
  historyWeight := 1
  failureWeight := 1
  store := oneRecord

def provider : CapabilityAgent := { id := 0, capabilities := 1, trust := 50 }

def bystander : CapabilityAgent := { id := 1, capabilities := 2, trust := 50 }

theorem bystander_joined_decomposes :
    efeFeedback.Decomposes provider
      (ThresholdPolicy.shouldJoin ⟨efeFeedback.calculateValue, 0, 0⟩ provider [bystander] ⟨1⟩).score
      (ThresholdPolicy.shouldJoin ⟨efeFeedback.base, 0, 0⟩ provider [bystander] ⟨1⟩).score :=
  ((decomposes_iff efeFeedback 0 0 provider [bystander] ⟨1⟩ (by decide +kernel)).1
    (by decide +kernel)).mpr (Or.inl (List.cons_ne_nil _ _))

/-- The agent adds one to the value of nobody, and its counts add 25; the score is 24, not 26. -/
theorem first_agent_does_not_decompose :
    (ThresholdPolicy.shouldJoin ⟨efeFeedback.base, 0, 0⟩ provider [] ⟨1⟩).score = 1 ∧
      (ThresholdPolicy.shouldJoin ⟨efeFeedback.calculateValue, 0, 0⟩ provider [] ⟨1⟩).score = 24 ∧
      ¬efeFeedback.Decomposes provider
        (ThresholdPolicy.shouldJoin ⟨efeFeedback.calculateValue, 0, 0⟩ provider [] ⟨1⟩).score
        (ThresholdPolicy.shouldJoin ⟨efeFeedback.base, 0, 0⟩ provider [] ⟨1⟩).score := by
  have hbase : (ThresholdPolicy.shouldJoin ⟨efeFeedback.base, 0, 0⟩ provider [] ⟨1⟩).score = 1 := by
    decide +kernel
  have hfeedback : (ThresholdPolicy.shouldJoin ⟨efeFeedback.calculateValue, 0, 0⟩ provider []
      ⟨1⟩).score = 24 := by
    decide +kernel
  refine ⟨hbase, hfeedback, ?_⟩
  rw [hbase, hfeedback, Decomposes]
  decide +kernel

end Sample

end FeedbackCalculator

end Koalisi.Algorithms
