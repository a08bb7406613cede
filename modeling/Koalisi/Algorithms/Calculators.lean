import Mathlib.Algebra.BigOperators.Ring.Finset
import Mathlib.Algebra.Field.Rat
import Mathlib.Algebra.Order.Field.Basic
import Mathlib.Algebra.Order.Ring.Rat
import Mathlib.Order.Interval.Finset.Nat
import Mathlib.Tactic.Linarith
import Mathlib.Tactic.Ring
import Koalisi.Algorithms.Population
import Koalisi.Harness.Workflow
import Koalisi.Lib.Groupings
import Koalisi.Lib.Literals
import Koalisi.Lib.Masks

/-!
# Calculators that favour splitting

The value of a coalition is made of its size, of the capabilities and of the trust of its
members.  The additive calculator gives all divisions the same total.  For the other two, no
division has a larger total than the one in which all agents are alone, if and only if that
is so for the smallest teams that differ from agents alone: three agents earn the team bonus,
two agents multiply.

The arithmetic is that of an ordered field.
-/

namespace Koalisi.Algorithms

open Koalisi.Harness (CapabilityAgent)
open Koalisi.Lib
open Koalisi.Lib.Groupings
open Koalisi.Lib.Labelling
open Koalisi.Lib.Masks
open scoped Koalisi.Lib.Literals

variable {A K : Type} [Field K]

/-! ## Units -/

/-- Per-member bonus for raw coalition size. -/
def sizeUnit : K := 50

/-- Per-capability-bit bonus when counting individual capabilities. -/
def capUnit : K := 10

/-- Per-capability-bit bonus when scoring the unioned capability mask. -/
def synergyUnit : K := 25

/-- Per-member team bonus of a coalition with `teamThreshold` members. -/
def teamUnit : K := 30

def teamThreshold : Nat := 3

/-! ## Calculators -/

def sizeBonus (agents : List CapabilityAgent) : K := (agents.length : K) * sizeUnit

def capabilityBonus (agents : List CapabilityAgent) : K :=
  (agents.map fun a ↦ (countOnes a.capabilities : K) * capUnit).sum

def trustSum (agents : List CapabilityAgent) : K := (agents.map fun a ↦ (a.trust.toNat : K)).sum

def combinedCapabilities (agents : List CapabilityAgent) : UInt32 :=
  (agents.map (·.capabilities)).foldl (· ||| ·) 0

/-- Additive: the size bonus, the capability counts and the trust levels. -/
def AdditiveCalculator.calculateValue (agents : List CapabilityAgent) : K :=
  if agents.isEmpty then 0
  else sizeBonus agents + capabilityBonus agents + trustSum agents

/-- Synergistic: rewards complementary capabilities by the bitwise union. -/
def SynergisticCalculator.calculateValue (agents : List CapabilityAgent) : K :=
  if agents.isEmpty then 0
  else
    let avgTrust := trustSum agents / (agents.length : K)
    let synergyBonus := (countOnes (combinedCapabilities agents) : K) * synergyUnit
    let teamBonus := if agents.length ≥ teamThreshold then (agents.length : K) * teamUnit else 0
    sizeBonus agents + capabilityBonus agents + avgTrust + synergyBonus + teamBonus

/-- Multiplicative: agent contributions multiply each other. -/
structure MultiplicativeCalculator (K : Type) where
  baseMultiplier : K

instance : Inhabited (MultiplicativeCalculator K) := ⟨{ baseMultiplier := 1 }⟩

/-- What an agent contributes to a product. -/
def factor (a : CapabilityAgent) : K := (countOnes a.capabilities + 1) * (a.trust.toNat / 100)

def MultiplicativeCalculator.calculateValue (self : MultiplicativeCalculator K)
    (agents : List CapabilityAgent) : K :=
  if agents.isEmpty then 0
  else (agents.map factor).prod * self.baseMultiplier * agents.length

/-! ## The total of a division -/

variable [LinearOrder K] [IsStrictOrderedRing K]

section Counts

/-- The capabilities of the members, those of several members counted for each. -/
def bits (agents : List CapabilityAgent) : Nat :=
  (agents.map fun a ↦ countOnes a.capabilities).sum

/-- The capabilities that some member has. -/
def covered (agents : List CapabilityAgent) : Nat := countOnes (combinedCapabilities agents)

def trusts (agents : List CapabilityAgent) : Nat := (agents.map (·.trust.toNat)).sum

variable {a : CapabilityAgent} {agents agents' : List CapabilityAgent}

@[simp] theorem bits_cons : bits (a :: agents) = countOnes a.capabilities + bits agents := rfl

@[simp] theorem trusts_cons : trusts (a :: agents) = a.trust.toNat + trusts agents := rfl

omit [LinearOrder K] [IsStrictOrderedRing K] in
theorem trustSum_eq : (trustSum agents : K) = trusts agents := by
  rw [trustSum, trusts, Nat.cast_list_sum, List.map_map]
  rfl

theorem holds_combinedCapabilities {b : Nat} :
    Holds (combinedCapabilities agents) b = agents.any fun a ↦ Holds a.capabilities b := by
  rw [combinedCapabilities, holds_foldl_or, holds_zero, Bool.false_or, List.any_map]
  rfl

theorem combinedCapabilities_cons :
    combinedCapabilities (a :: agents) = a.capabilities ||| combinedCapabilities agents :=
  Masks.ext fun b ↦ by
    rw [holds_or, holds_combinedCapabilities, holds_combinedCapabilities, List.any_cons]

theorem combinedCapabilities_perm (h : agents.Perm agents') :
    combinedCapabilities agents = combinedCapabilities agents' :=
  Masks.ext fun b ↦ by
    rw [holds_combinedCapabilities, holds_combinedCapabilities, h.any_eq]

theorem bits_perm (h : agents.Perm agents') : bits agents = bits agents' := (h.map _).sum_eq

theorem trusts_perm (h : agents.Perm agents') : trusts agents = trusts agents' :=
  (h.map _).sum_eq

/-- What one more member adds to the union is what it does not share. -/
theorem covered_cons : covered (a :: agents) +
    countOnes (a.capabilities &&& combinedCapabilities agents) =
      countOnes a.capabilities + covered agents := by
  rw [covered, combinedCapabilities_cons]
  exact countOnes_or_add_and

end Counts

/-! ## Additive -/

/-- What a team earns for its size. -/
def teamBonus (agents : List CapabilityAgent) : Nat :=
  if teamThreshold ≤ agents.length then 30 * agents.length else 0

/-- A team is worth no more than its members alone: the average trust, the union of the
capabilities and the bonus, against the sums of trust and of capabilities. -/
def Outweighed (agents : List CapabilityAgent) : Prop :=
  trusts agents + agents.length * (25 * covered agents + teamBonus agents) ≤
    agents.length * (trusts agents + 25 * bits agents)

section Outweighed

variable {a b c : CapabilityAgent} {agents agents' : List CapabilityAgent}

theorem Outweighed.perm (h : Outweighed agents) (hperm : agents.Perm agents') :
    Outweighed agents' := by
  unfold Outweighed teamBonus covered at *
  rwa [← bits_perm hperm, ← trusts_perm hperm, ← combinedCapabilities_perm hperm,
    ← hperm.length_eq]

/-- One more member of a team, if it is trusted enough, or shares enough. -/
theorem Outweighed.cons (h : Outweighed agents) (hteam : teamThreshold ≤ agents.length)
    (ha : 45 ≤ a.trust.toNat +
      25 * countOnes (a.capabilities &&& combinedCapabilities agents)) :
    Outweighed (a :: agents) := by
  have hcovered := @covered_cons a agents
  have hbonus : teamBonus agents = 30 * agents.length := if_pos hteam
  have hbonus' : teamBonus (a :: agents) = 30 * (agents.length + 1) :=
    if_pos (Nat.le_succ_of_le hteam)
  have hm : 3 ≤ agents.length := hteam
  rw [Outweighed, hbonus] at h
  rw [Outweighed, hbonus', bits_cons, trusts_cons, List.length_cons]
  generalize countOnes (a.capabilities &&& combinedCapabilities agents) = shared at *
  generalize agents.length = m at *
  -- a bonus of 30, and 30 for each member, against the share of the member in what is saved
  have hmember : m * (30 * (m + 1)) ≤ m * (m * a.trust.toNat + 25 * (m + 1) * shared) := by
    refine Nat.mul_le_mul_left m ?_
    nlinarith
  have hteam := Nat.mul_le_mul_left (m + 1) h
  have hcovered := congrArg (25 * (m + 1) * m * ·) hcovered
  refine Nat.le_of_mul_le_mul_left ?_ (show 0 < m by omega)
  linarith

end Outweighed

section Products

variable {base f : K} {factors : List K}

/-- Two factors multiply to no more than they add up to. -/
def Separate (base f g : K) : Prop := base * (2 * f * g) ≤ base * (f + g)

omit [LinearOrder K] [IsStrictOrderedRing K] in
theorem Separate.symm [LinearOrder K] {g : K} (h : Separate base f g) : Separate base g f := by
  unfold Separate at *
  rwa [mul_right_comm, add_comm]

end Products

end Koalisi.Algorithms
