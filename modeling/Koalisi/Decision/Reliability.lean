import Mathlib.Algebra.Order.Field.Basic
import Mathlib.Algebra.Order.Ring.Rat
import Mathlib.Data.List.FinRange
import Mathlib.Tactic.Linarith
import Koalisi.Decision.Query
import Koalisi.Lib.Literals
import Koalisi.Lib.Sums

/-!
# Coverage by reliable agents

A block of agents is worth what it covers of a task, each bit weighted by how reliable its
providers are.  A block that covers everything earns a bonus, scaled by the mean; another one
earns something for each bit.  All members cost the same.

For at most six required bits the bonus is worth more for each bit than the bit is, so a block
is worth no less than another one of its size whose bits it covers, and skipping a bit does not
pay, however unreliable the bit is (`skipping_never_pays`).
-/

namespace Koalisi.Decision

open Koalisi.Lib Koalisi.Lib.Masks
open scoped Koalisi.Lib.Literals
open Koalisi.Harness (CapabilityAgent)

variable {K : Type} [Field K] [LinearOrder K]

/-! ## Without reliabilities -/

/-- The value model that takes all agents for reliable. -/
structure TaskCoverage where
  required : UInt32

def TaskCoverage.calculateValue (self : TaskCoverage) (agents : List CapabilityAgent) : K :=
  if agents.isEmpty then 0
  else
    let union := unionCaps agents
    let covered := countOnes (union &&& self.required)
    let required := countOnes self.required
    let coverage : K := if covered = required then 100 else (covered : K) * 15
    coverage - (agents.length : K) * 8

/-! ## With reliabilities -/

/-- The bonus for full coverage, scaled by the mean reliability. -/
def fullCoverageUnit : K := 100

/-- What a bit is worth where not all are covered. -/
def partialBitUnit : K := 15

def memberCost : K := 8

namespace ReliabilityCoverage

/-- The number of bits that there is a reliability for. -/
def nBits : Nat := 8

def bitMask : UInt32 := lowMask nBits

/-- Bring a reliability into range; one that is not finite is the worst. -/
def sanitize : Option K → K
  | some raw => max 0 (min raw 1)
  | none => 0

end ReliabilityCoverage

/-- The required bits, and a reliability for each bit. -/
structure ReliabilityCoverage (K : Type) [Field K] [LinearOrder K] where
  required : UInt32
  reliability : Fin ReliabilityCoverage.nBits → K
  inside : ∀ b, Holds required b → b < ReliabilityCoverage.nBits
  nonneg : ∀ b, 0 ≤ reliability b
  le_one : ∀ b, reliability b ≤ 1

namespace ReliabilityCoverage

theorem holds_bitMask {b : Nat} : Holds bitMask b = decide (b < nBits) := by
  have hmask : bitMask.toNat = 2 ^ 8 - 1 := by decide
  rw [Holds, hmask, Nat.testBit_two_pow_sub_one]
  rfl

theorem sanitize_nonneg (raw : Option K) : 0 ≤ sanitize raw := by
  cases raw with
  | none => exact le_rfl
  | some raw => exact le_max_left _ _

section New

variable [IsStrictOrderedRing K]

theorem sanitize_le_one (raw : Option K) : sanitize raw ≤ 1 := by
  cases raw with
  | none => exact zero_le_one
  | some raw => exact max_le zero_le_one (min_le_right _ _)

/-- Bits that there is no reliability for are not required. -/
def new (required : UInt32) (reliability : Fin nBits → Option K) : ReliabilityCoverage K where
  required := required &&& bitMask
  reliability b := sanitize (reliability b)
  inside b hb := by
    rw [holds_and, holds_bitMask, Bool.and_eq_true, decide_eq_true_iff] at hb
    exact hb.2
  nonneg b := sanitize_nonneg _
  le_one b := sanitize_le_one _

theorem required_new (required : UInt32) (reliability : Fin nBits → Option K) :
    (new required reliability).required = required &&& bitMask := rfl

end New

variable (self : ReliabilityCoverage K)

/-- The reliabilities of the bits of a mask. -/
def sumReliability (mask : UInt32) : K :=
  (((List.finRange nBits).filter fun b : Fin nBits ↦ mask &&& 1 <<< UInt32.ofNat b.val ≠ 0).map
    self.reliability).sum

def calculateValue (agents : List CapabilityAgent) : K :=
  if agents.isEmpty then 0
  else
    let union := unionCaps agents
    let covered := union &&& self.required
    let coverage :=
      if covered = self.required then
        -- nothing required is covered perfectly
        let mean := if self.required = 0 then 1
          else self.sumReliability self.required / (countOnes self.required : K)
        fullCoverageUnit * mean
      else partialBitUnit * self.sumReliability covered
    coverage - (agents.length : K) * memberCost

/-! ## Sums of reliabilities -/

variable {self}

theorem toNat_bit (b : Fin nBits) : (UInt32.ofNat b.val).toNat = b.val := by
  rw [UInt32.toNat_ofNat']
  exact Nat.mod_eq_of_lt (b.isLt.trans (by decide))

theorem and_bit_ne_zero {mask : UInt32} {b : Fin nBits} :
    mask &&& 1 <<< UInt32.ofNat b.val ≠ 0 ↔ Holds mask b := by
  have hlt : (UInt32.ofNat b.val).toNat < 32 := by
    rw [toNat_bit]
    exact b.isLt.trans (by decide)
  rw [and_single_ne_zero hlt, toNat_bit]

theorem sumReliability_le [IsStrictOrderedRing K] {mask mask' : UInt32}
    (h : ∀ b, Holds mask b → Holds mask' b) :
    self.sumReliability mask ≤ self.sumReliability mask' := by
  refine sum_map_filter_le self.nonneg fun b _ hb ↦ ?_
  rw [decide_eq_true_iff, and_bit_ne_zero] at hb ⊢
  exact h b hb

/-- Where all agents are reliable, the bits are counted. -/
theorem sumReliability_of_one (hone : ∀ b, self.reliability b = 1) {mask : UInt32}
    (h : ∀ b, Holds mask b → b < nBits) : self.sumReliability mask = countOnes mask := by
  have hmap : ((List.finRange nBits).filter fun b : Fin nBits ↦
      mask &&& 1 <<< UInt32.ofNat b.val ≠ 0).length = countOnes mask := by
    rw [countOnes_eq_countP_range (by decide) h, ← List.map_coe_finRange_eq_range,
      List.countP_map, List.countP_eq_length_filter]
    refine congrArg List.length (List.filter_congr fun b _ ↦ ?_)
    rw [Bool.eq_iff_iff, decide_eq_true_iff, and_bit_ne_zero]
    rfl
  rw [sumReliability, ← hmap, List.map_congr_left fun b _ ↦ hone b, List.map_const',
    List.sum_replicate, nsmul_one]

/-! ## Values -/

/-- What a block earns for the bits it covers. -/
def coverageOf (self : ReliabilityCoverage K) (covered : UInt32) : K :=
  if covered = self.required then
    fullCoverageUnit * if self.required = 0 then 1
      else self.sumReliability self.required / (countOnes self.required : K)
  else partialBitUnit * self.sumReliability covered

theorem calculateValue_of_ne_nil {agents : List CapabilityAgent} (h : agents ≠ []) :
    self.calculateValue agents =
      self.coverageOf (unionCaps agents &&& self.required) - (agents.length : K) * memberCost :=
  if_neg fun hempty ↦ h (List.isEmpty_iff.mp hempty)

/-- Covering the rest pays at least as much as skipping it. -/
theorem coverageOf_le [IsStrictOrderedRing K] (hfew : countOnes self.required ≤ 6)
    {covered covered' : UInt32} (hinside : ∀ b, Holds covered' b → Holds self.required b)
    (hsub : ∀ b, Holds covered b → Holds covered' b) :
    self.coverageOf covered ≤ self.coverageOf covered' := by
  unfold coverageOf
  by_cases hfull : covered = self.required
  · -- the second block covers no less
    have hfull' : covered' = self.required := by
      refine Masks.ext fun b ↦ Bool.eq_iff_iff.mpr ⟨hinside b, fun hb ↦ hsub b ?_⟩
      rwa [hfull]
    rw [if_pos hfull, if_pos hfull']
  · rw [if_neg hfull]
    by_cases hfull' : covered' = self.required
    · have hne : self.required ≠ 0 := by
        intro hzero
        refine hfull (Masks.ext fun b ↦ Bool.eq_iff_iff.mpr ⟨fun hb ↦ hinside b (hsub b hb), ?_⟩)
        rw [hzero, holds_zero]
        exact fun h ↦ absurd h Bool.false_ne_true
      have hpos : (0 : K) < countOnes self.required := Nat.cast_pos.mpr (countOnes_pos hne)
      have hsix : (countOnes self.required : K) ≤ 6 := by exact_mod_cast hfew
      have hsum : self.sumReliability covered ≤ self.sumReliability self.required :=
        sumReliability_le fun b hb ↦ hinside b (hsub b hb)
      have hnonneg : 0 ≤ self.sumReliability self.required :=
        List.sum_nonneg fun r hr ↦ by
          obtain ⟨b, -, rfl⟩ := List.mem_map.mp hr
          exact self.nonneg b
      rw [if_pos hfull', if_neg hne, ← mul_div_assoc, le_div_iff₀ hpos, fullCoverageUnit,
        partialBitUnit]
      calc 15 * self.sumReliability covered * countOnes self.required
          ≤ 15 * self.sumReliability self.required * 6 := by gcongr
        _ ≤ 100 * self.sumReliability self.required := by linarith
    · rw [if_neg hfull', partialBitUnit]
      exact mul_le_mul_of_nonneg_left (sumReliability_le hsub) (by norm_num)

/-- The bits of a block that count are required bits. -/
theorem holds_covered {union : UInt32} {b : Nat} (hb : Holds (union &&& self.required) b) :
    Holds union b ∧ Holds self.required b := by
  rwa [holds_and, Bool.and_eq_true] at hb

theorem calculateValue_le [IsStrictOrderedRing K] (hfew : countOnes self.required ≤ 6)
    {first second : List CapabilityAgent} (hfirst : first ≠ []) (hsecond : second ≠ [])
    (hsize : first.length = second.length)
    (hsub : ∀ b, Holds self.required b → Holds (unionCaps first) b → Holds (unionCaps second) b) :
    self.calculateValue first ≤ self.calculateValue second := by
  rw [calculateValue_of_ne_nil hfirst, calculateValue_of_ne_nil hsecond, hsize]
  refine sub_le_sub_right (coverageOf_le hfew (fun b hb ↦ (holds_covered hb).2) ?_) _
  intro b hb
  obtain ⟨hunion, hrequired⟩ := holds_covered hb
  rw [holds_and, Bool.and_eq_true]
  exact ⟨hsub b hrequired hunion, hrequired⟩

/-- Where all agents are reliable, the mean is one and each covered bit counts in full. -/
theorem calculateValue_of_one [IsStrictOrderedRing K] (hone : ∀ b, self.reliability b = 1)
    (agents : List CapabilityAgent) :
    self.calculateValue agents = TaskCoverage.calculateValue ⟨self.required⟩ agents := by
  unfold calculateValue TaskCoverage.calculateValue
  split
  case isTrue => rfl
  case isFalse =>
    have hcovered : self.sumReliability (unionCaps agents &&& self.required) =
        countOnes (unionCaps agents &&& self.required) :=
      sumReliability_of_one hone fun b hb ↦ self.inside b (holds_covered hb).2
    have hfull : unionCaps agents &&& self.required = self.required ↔
        countOnes (unionCaps agents &&& self.required) = countOnes self.required := by
      rw [UInt32.and_comm, countOnes_and_eq_iff]
    simp only [hfull, hcovered, sumReliability_of_one hone self.inside, fullCoverageUnit,
      partialBitUnit, memberCost]
    split
    case isFalse => rw [mul_comm (15 : K)]
    case isTrue =>
      split
      case isTrue => rw [mul_one]
      case isFalse hne =>
        have hpos : (0 : K) < countOnes self.required := Nat.cast_pos.mpr (countOnes_pos hne)
        rw [div_self hpos.ne', mul_one]

/-- Two blocks of a size: the one that covers what the other covers is worth no less.  And a
block of reliable agents is worth what it is worth without reliabilities. -/
theorem skipping_never_pays [IsStrictOrderedRing K] (required : UInt32)
    (reliability : Fin nBits → Option K) :
    (countOnes (required &&& bitMask) ≤ 6 →
      ∀ first second : List CapabilityAgent, first ≠ [] → second ≠ [] →
        first.length = second.length →
        (∀ b < nBits, Holds required b → Holds (unionCaps first) b →
          Holds (unionCaps second) b) →
        (new required reliability).calculateValue first ≤
          (new required reliability).calculateValue second) ∧
    ((∀ b, (new required reliability).reliability b = 1) →
      ∀ agents : List CapabilityAgent, (new required reliability).calculateValue agents =
        TaskCoverage.calculateValue ⟨required &&& bitMask⟩ agents) := by
  have hnew := required_new required reliability
  rw [← hnew]
  refine ⟨fun hfew first second hfirst hsecond hsize hsub ↦ ?_, calculateValue_of_one⟩
  refine calculateValue_le hfew hfirst hsecond hsize fun b hb hunion ↦ ?_
  have hinside := (new required reliability).inside b hb
  rw [hnew, holds_and, Bool.and_eq_true] at hb
  exact hsub b hinside hb.1 hunion

/-- The reliabilities that the first of the bits is the worst of. -/
def worstFirst (b : Fin nBits) : Option ℚ := if b.val = 0 then none else some (9 / 10)

/-- Of six bits one agent covers the second, and another one the first two. -/
theorem worst_of_six_not_skipped :
    (new 63 worstFirst).calculateValue [⟨1, 2, 0⟩] ≤
      (new 63 worstFirst).calculateValue [⟨2, 3, 0⟩] :=
  (skipping_never_pays 63 worstFirst).1 (by decide) [⟨1, 2, 0⟩] [⟨2, 3, 0⟩] (List.cons_ne_nil _ _)
    (List.cons_ne_nil _ _) rfl (by decide)

end ReliabilityCoverage

end Koalisi.Decision
