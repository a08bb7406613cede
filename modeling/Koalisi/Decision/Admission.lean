import Mathlib.Tactic.Ring
import Koalisi.Decision.Bridge
import Koalisi.Decision.Members

/-!
# Who is let in, and who is kept

The two arms that decide by expected free energy look at different things.  A join compares
the coalition with the agent alone, so it is about what the others bring to the agent.  A leave
compares the coalition with the others alone, so it is about what the agent brings to them.
An agent that brings nothing can be let in for what the others have, and is told to leave right
after (`a_passenger_is_let_in`).

What is required of an arm's `G` is that it is finite and falls as more of the required bits are
covered.  That `G` sees nothing else of a coalition is shown (`Falls.congr`).
-/

namespace Koalisi.Decision

open Koalisi.Lib.Masks
open Koalisi.Harness (CapabilityAgent)
open Koalisi.Topology (Decision DecisionContext)

/-! ## Coverage -/

section Coverage

variable {agents : List CapabilityAgent} {agent : CapabilityAgent} {required caps caps' : UInt32}

/-- A union holds what one of the agents holds. -/
theorem holds_unionCaps {b : Nat} :
    Holds (unionCaps agents) b = agents.any (Holds ·.capabilities b) := by
  have hmap : unionCaps agents = (agents.map (·.capabilities)).foldl (· ||| ·) 0 :=
    List.foldl_map.symm
  rw [hmap, holds_foldl_or, holds_zero, Bool.false_or, List.any_map]
  rfl

theorem unionCaps_concat :
    unionCaps (agents ++ [agent]) = unionCaps agents ||| agent.capabilities := by
  rw [unionCaps, List.foldl_append]
  rfl

/-- The union of two masks covers no more than the first where the second brings nothing. -/
theorem or_and_eq_of_brings_nothing
    (h : ∀ b, Holds caps' b → Holds required b → Holds caps b) :
    (caps ||| caps') &&& required = caps &&& required := by
  refine ext fun b ↦ ?_
  rw [holds_and, holds_and, holds_or]
  cases hr : Holds required b with
  | false => rw [Bool.and_false, Bool.and_false]
  | true =>
      cases hc : Holds caps' b with
      | false => rw [Bool.or_false]
      | true => rw [h b hc hr, Bool.true_or]

/-- The union of two masks covers more than the first where the second brings something. -/
theorem countOnes_lt_of_brings {b : Nat} (hcaps' : Holds caps' b) (hreq : Holds required b)
    (hcaps : ¬Holds caps b) :
    countOnes (caps &&& required) < countOnes ((caps ||| caps') &&& required) := by
  refine countOnes_lt (b := b) (fun c hc ↦ ?_) ?_ ?_
  · rw [holds_and, Bool.and_eq_true] at hc
    rw [holds_and, holds_or, hc.1, hc.2]
    rfl
  · rw [holds_and, holds_or, hcaps', hreq, Bool.or_true]
    rfl
  · rw [holds_and, Bool.and_eq_true]
    exact fun h ↦ hcaps h.1

end Coverage

/-! ## The rules -/

section Rules

variable {F : Type} [FloatingPoint F]

/-- What the two arms use of the arithmetic of floating-point numbers.  It holds of rounded
numbers as it does of exact ones. -/
class BridgeArithmetic (F : Type) [FloatingPoint F] : Prop where
  zero_le_zero : (0.0 : F) ≤ 0.0
  zero_le_one : (0.0 : F) ≤ 1.0
  one_le_one : (1.0 : F) ≤ 1.0
  not_lt_of_le {x y : F} : x ≤ y → ¬y < x
  isFinite_zero : FloatingPoint.isFinite (0.0 : F) = true
  sub_self {x : F} : FloatingPoint.isFinite x = true → x - x = 0.0
  /-- The difference of different numbers does not round to zero. -/
  not_sub_le_zero {x y : F} : FloatingPoint.isFinite x = true → FloatingPoint.isFinite y = true →
    x < y → ¬y - x ≤ 0.0
  one_sub_zero : (1.0 : F) - 0.0 = 1.0
  one_mul {x : F} : (1.0 : F) * x = x
  zero_mul_half : (0.0 : F) * 0.5 = 0.0
  one_add_zero : (1.0 : F) + 0.0 = 1.0
  /-- Fractions of two counts of bits are between 0 and 1. -/
  fraction {k n : Nat} : k ≤ n → 0 < n → n ≤ 32 →
    (k : F) / (n : F) + 0.0 = (k : F) / (n : F) ∧ (0.0 : F) ≤ (k : F) / (n : F) ∧
      (k : F) / (n : F) ≤ 1.0

/-- The expected free energy is finite, and falls as more of the required bits are covered. -/
structure Falls (required : UInt32) (G : UInt32 → Option F) : Prop where
  finite : ∀ caps, ∃ g, G caps = some g ∧ FloatingPoint.isFinite g = true
  falls : ∀ {caps caps' : UInt32} {g g' : F},
    countOnes (caps &&& required) < countOnes (caps' &&& required) →
      G caps = some g → G caps' = some g' → g' < g

/-- What becomes of an agent that asks to join, and what of it as a member. -/
structure Admission (agent : CapabilityAgent) (coalition : List CapabilityAgent)
    (required : UInt32) (joined left : Decision F) : Prop where
  /-- Who has all that the others have of the task is not let in. -/
  refused : (∀ b, (∃ a ∈ coalition, Holds a.capabilities b) → Holds required b →
    Holds agent.capabilities b) → joined.act = false
  /-- Who is a member leaves exactly if the others have all that it has of the task. -/
  evicted : left.act = true ↔ ∀ b, Holds agent.capabilities b → Holds required b →
    ∃ a ∈ coalition, Holds a.capabilities b

variable [BridgeArithmetic F] {required caps caps' : UInt32} {G : UInt32 → Option F}

/-- A finite number differs from itself by zero. -/
theorem finiteDifference_self {g : F} (h : FloatingPoint.isFinite g = true) :
    finiteDifference (some g) (some g) = some 0.0 := by
  change (if FloatingPoint.isFinite (g - g) = true then some (g - g) else none) = _
  rw [BridgeArithmetic.sub_self h, if_pos BridgeArithmetic.isFinite_zero]

/-- What leaves equal covers equal leaves `G` equal, and then there is nothing to gain. -/
theorem Falls.join_not_act (hG : Falls required G)
    (hcongr : ∀ {caps caps'}, caps &&& required = caps' &&& required → G caps = G caps')
    {joinMargin : F} (hmargin : 0.0 ≤ joinMargin)
    (h : ∀ b, Holds caps b → Holds required b → Holds caps' b) :
    (joinDecisionFromG (G caps') (G (caps ||| caps')) joinMargin).act = false := by
  have heq : G (caps ||| caps') = G caps' := by
    refine hcongr ?_
    rw [UInt32.or_comm]
    exact or_and_eq_of_brings_nothing h
  obtain ⟨g, hg, hfinite⟩ := hG.finite caps'
  rw [heq, hg, joinDecisionFromG, finiteDifference_self hfinite]
  exact decide_eq_false (BridgeArithmetic.not_lt_of_le hmargin)

/-- Without an agent, `G` is no higher exactly if the others cover all that it covers. -/
theorem Falls.leave_act_iff (hG : Falls required G)
    (hcongr : ∀ {caps caps'}, caps &&& required = caps' &&& required → G caps = G caps') :
    (leaveDecisionFromG (G (caps ||| caps')) (G caps)).act = true ↔
      ∀ b, Holds caps' b → Holds required b → Holds caps b := by
  obtain ⟨g, hg, hfinite⟩ := hG.finite caps
  constructor
  · intro hact b hcaps' hreq
    by_contra hcaps
    obtain ⟨g', hg', hfinite'⟩ := hG.finite (caps ||| caps')
    have hlt := hG.falls (countOnes_lt_of_brings hcaps' hreq hcaps) hg hg'
    rw [leaveDecisionFromG, hg, hg'] at hact
    split at hact
    · exact Bool.false_ne_true hact
    · next delta hdelta =>
        change (if FloatingPoint.isFinite (g - g') = true then some (g - g') else none) = _
          at hdelta
        split at hdelta
        · obtain rfl := Option.some.inj hdelta
          exact BridgeArithmetic.not_sub_le_zero hfinite' hfinite hlt (of_decide_eq_true hact)
        · cases hdelta
  · intro h
    rw [hcongr (or_and_eq_of_brings_nothing h), hg, leaveDecisionFromG,
      finiteDifference_self hfinite]
    exact decide_eq_true BridgeArithmetic.zero_le_zero

/-- Both rules, for the same agent and the same others. -/
theorem Falls.admission (hG : Falls required G)
    (hcongr : ∀ {caps caps'}, caps &&& required = caps' &&& required → G caps = G caps')
    {joinMargin : F} (hmargin : 0.0 ≤ joinMargin) {agent : CapabilityAgent}
    {coalition : List CapabilityAgent} :
    Admission agent coalition required
      (joinDecisionFromG (G agent.capabilities) (G (unionCaps coalition ||| agent.capabilities))
        joinMargin)
      (leaveDecisionFromG (G (unionCaps coalition ||| agent.capabilities))
        (G (unionCaps coalition))) where
  refused h := by
    refine hG.join_not_act hcongr hmargin fun b hb hreq ↦ h b ?_ hreq
    rw [holds_unionCaps] at hb
    exact List.any_eq_true.mp hb
  evicted := by
    rw [hG.leave_act_iff hcongr]
    simp only [holds_unionCaps, List.any_eq_true]

end Rules

/-! ## The arms -/

section Arms

variable {F : Type} [FloatingPoint F] {aif : BridgeAif F} {required caps caps' : UInt32}
  {params : BridgeParams F}

/-- Coverage sees only the required bits. -/
theorem coverage_congr (h : caps &&& required = caps' &&& required) :
    (coverage caps required : F) = coverage caps' required := by
  rw [coverage, coverage, h]

namespace AifDecisionPolicy

/-- What the first arm's `G` sees of a coalition, if beliefs do not count. -/
def coverageG (aif : BridgeAif F) (params : BridgeParams F) (required caps : UInt32) : Option F :=
  gAt aif (coverage caps required) params

theorem coverageG_congr (h : caps &&& required = caps' &&& required) :
    coverageG aif params required caps = coverageG aif params required caps' := by
  rw [coverageG, coverageG, coverage_congr h]

variable [BridgeArithmetic F]

theorem clamp_eq_self {x : F} (hlo : 0.0 ≤ x) (hhi : x ≤ 1.0) : clamp x 0.0 1.0 = x := by
  rw [clamp, if_neg (BridgeArithmetic.not_lt_of_le hlo),
    if_neg (BridgeArithmetic.not_lt_of_le hhi)]

/-- A coverage is a fraction, or one. -/
theorem coverage_between :
    (coverage caps required : F) + 0.0 = coverage caps required ∧
      (0.0 : F) ≤ coverage caps required ∧ (coverage caps required : F) ≤ 1.0 := by
  rw [coverage]
  split
  · exact ⟨BridgeArithmetic.one_add_zero, BridgeArithmetic.zero_le_one,
      BridgeArithmetic.one_le_one⟩
  · next h =>
      refine BridgeArithmetic.fraction ?_ (countOnes_pos h) countOnes_le
      rw [UInt32.and_comm]
      exact countOnes_and_le

/-- Without beliefs the competence is the coverage. -/
theorem blendedCompetence_coverage :
    blendedCompetence (coverage caps required : F) 0.5 0.0 = coverage caps required := by
  obtain ⟨hadd, hlo, hhi⟩ : (coverage caps required : F) + 0.0 = coverage caps required ∧
      (0.0 : F) ≤ coverage caps required ∧ (coverage caps required : F) ≤ 1.0 := coverage_between
  have hw : clamp (0.0 : F) 0.0 1.0 = 0.0 :=
    clamp_eq_self BridgeArithmetic.zero_le_zero BridgeArithmetic.zero_le_one
  have hblend :
      ((1.0 : F) - 0.0) * coverage caps required + 0.0 * 0.5 = coverage caps required := by
    rw [BridgeArithmetic.one_sub_zero, BridgeArithmetic.one_mul, BridgeArithmetic.zero_mul_half,
      hadd]
  rw [blendedCompetence, hw, hblend]
  exact clamp_eq_self hlo hhi

variable {policy : AifDecisionPolicy aif} {agent : CapabilityAgent}
  {coalition : List CapabilityAgent}

theorem shouldJoin_eq (hw : policy.params.beliefWeight = 0.0) :
    policy.shouldJoin agent coalition ⟨required⟩ =
      joinDecisionFromG (coverageG aif policy.params required agent.capabilities)
        (coverageG aif policy.params required (unionCaps coalition ||| agent.capabilities))
        policy.joinMargin := by
  have halign : ∀ members, policy.alignment agent.id members = 0.5 := by
    intro members
    rw [alignment, hw, if_pos BridgeArithmetic.zero_le_zero]
  rw [shouldJoin, joinCompetences]
  dsimp only
  rw [halign, hw, blendedCompetence_coverage, blendedCompetence_coverage]
  rfl

theorem shouldLeave_eq (hw : policy.params.beliefWeight = 0.0)
    (hx : agent.id ∉ coalition.map (·.id)) :
    policy.shouldLeave agent (coalition ++ [agent]) ⟨required⟩ =
      leaveDecisionFromG
        (coverageG aif policy.params required (unionCaps coalition ||| agent.capabilities))
        (coverageG aif policy.params required (unionCaps coalition)) := by
  have halign : ∀ members, policy.alignment agent.id members = 0.5 := by
    intro members
    rw [alignment, hw, if_pos BridgeArithmetic.zero_le_zero]
  rw [shouldLeave, leaveCompetences]
  dsimp only
  rw [halign, hw, filter_concat hx, unionCaps_concat, blendedCompetence_coverage,
    blendedCompetence_coverage]
  rfl

end AifDecisionPolicy

namespace MultiModalModel

/-- Asking for a bit of a word by its number. -/
theorem single_iff {mask : UInt32} {i : Nat} (hi : i < 32) :
    mask &&& 1 <<< UInt32.ofNat i ≠ 0 ↔ Holds mask i := by
  have hto : (UInt32.ofNat i).toNat = i := UInt32.toNat_ofNat_of_lt' (hi.trans (by decide))
  rw [and_single_ne_zero (hto.symm ▸ hi), hto]

/-- What of a required bit is covered is what the masks with the required bits say. -/
theorem covered_iff {i : Nat} (hi : i ∈ setBits required 32) :
    caps &&& 1 <<< UInt32.ofNat i ≠ 0 ↔ Holds (caps &&& required) i := by
  obtain ⟨hlt, hbit⟩ := List.mem_filter.mp hi
  rw [List.mem_range] at hlt
  rw [decide_eq_true_iff, single_iff hlt] at hbit
  rw [single_iff hlt, holds_and, hbit, Bool.and_true]

/-- The second arm's `G` sees only the required bits. -/
theorem efeForCoverage_congr (h : caps &&& required = caps' &&& required) :
    efeForCoverage aif required caps params = efeForCoverage aif required caps' params := by
  have hbits : ∀ (f : Nat → F),
      ((setBits required 32).map fun i ↦
        f (if caps &&& 1 <<< UInt32.ofNat i ≠ 0 then 1 else 0)) =
      (setBits required 32).map fun i ↦
        f (if caps' &&& 1 <<< UInt32.ofNat i ≠ 0 then 1 else 0) := by
    intro f
    refine List.map_congr_left fun i hi ↦ ?_
    simp only [covered_iff hi, h]
  rw [efeForCoverage, efeForCoverage, hbits fun covB ↦
    0.5 + (params.maxPrecision - 0.5) * (covB : F)]

end MultiModalModel

/-- **Admission.**  Where `G` is finite and falls as more of the required bits are covered, both
arms, without beliefs, turn away an agent that has all that the coalition has of the task, and
tell a newcomer to leave exactly if the coalition has all that it has. -/
theorem arms_admit_and_keep [BridgeArithmetic F] (aif : BridgeAif F) (required : UInt32)
    (agent : CapabilityAgent) (coalition : List CapabilityAgent)
    (hx : agent.id ∉ coalition.map (·.id)) :
    (∀ policy : AifDecisionPolicy aif, 0.0 ≤ policy.joinMargin →
      policy.params.beliefWeight = 0.0 →
      (Falls required fun caps ↦
        (CapabilityModel.efeForCoverage aif (coverage caps required) policy.params).toOption) →
      Admission agent coalition required (policy.shouldJoin agent coalition ⟨required⟩)
        (policy.shouldLeave agent (coalition ++ [agent]) ⟨required⟩)) ∧
    ∀ policy : AifMmDecisionPolicy F, 0.0 ≤ policy.joinMargin →
      (Falls required fun covered ↦
        (MultiModalModel.efeForCoverage aif required covered policy.params).toOption) →
      Admission agent coalition required (policy.shouldJoin aif agent coalition ⟨required⟩)
        (policy.shouldLeave aif agent (coalition ++ [agent]) ⟨required⟩) := by
  constructor
  · intro policy hmargin hw hG
    rw [AifDecisionPolicy.shouldJoin_eq hw, AifDecisionPolicy.shouldLeave_eq hw hx]
    exact hG.admission (fun h ↦ AifDecisionPolicy.coverageG_congr h) hmargin
  · intro policy hmargin hG
    rw [AifMmDecisionPolicy.shouldLeave, AifMmDecisionPolicy.leaveMasks, filter_concat hx,
      unionCaps_concat]
    refine hG.admission (fun h ↦ ?_) hmargin
    rw [MultiModalModel.efeForCoverage_congr h]

end Arms

/-! ## A sample -/

/-- A listed bit is a bit of the mask. -/
theorem length_setBits (required : UInt32) :
    (setBits required 32).length = countOnes required := by
  rw [setBits, ← List.countP_eq_length_filter, countOnes]
  refine List.countP_congr fun i hi ↦ ?_
  rw [decide_eq_true_iff]
  exact MultiModalModel.single_iff (List.mem_range.mp hi)

theorem countP_setBits (required covered : UInt32) :
    (setBits required 32).countP (fun i ↦ covered &&& 1 <<< UInt32.ofNat i ≠ 0) =
      countOnes (covered &&& required) := by
  rw [setBits, List.countP_filter, countOnes]
  refine List.countP_congr fun i hi ↦ ?_
  have hi := List.mem_range.mp hi
  rw [Bool.and_eq_true, decide_eq_true_iff, decide_eq_true_iff, MultiModalModel.single_iff hi,
    MultiModalModel.single_iff hi, holds_and, Bool.and_eq_true]

/-- A sum over bits, of one number for each and another for some. -/
theorem sum_over_bits (bits : List Nat) (p : Nat → Prop) [DecidablePred p] (x y : ℚ) :
    (bits.map fun i ↦ x + y * ((if p i then 1 else 0 : Nat) : ℚ)).sum =
      x * (bits.length : ℚ) + y * (bits.countP fun i ↦ p i : ℚ) := by
  induction bits with
  | nil => simp
  | cons i bits ih =>
      rw [List.map_cons, List.sum_cons, ih, List.length_cons, List.countP_cons]
      by_cases hp : p i
      · simp only [hp, if_true, decide_true]
        push_cast
        ring
      · simp only [hp, if_false, decide_false, Bool.false_eq_true]
        push_cast
        ring

section Sample

attribute [local instance] exactNumbers

/-- An engine whose expected free energy falls by what is observed more precisely. -/
def preciseAif : BridgeAif ℚ where
  toAif := undecidedAif
  defaultParams :=
    { alpha := 1
      policyDepth := 1
      learnA := false
      learnB := false
      learnD := false
      useParamInfoGain := false
      useBInfoGain := false
      initialPa := none
      initialPb := none
      initialPrecisionB := none
      initialPrecisionD := none
      stateInference := .meanField
      precisionDynamics := false
      seed := 0
      gamma := none }
  competenceEfe competence _ := .ok (-competence)
  expectedFreeEnergy agent := -(agent.a.map fun m ↦ (m.headD []).headD 0).sum
  TrustBeliefs := Unit
  CompatibilityBeliefs := Unit
  CoalitionHistory := Unit
  beliefWeightedPreference _ _ _ _ _ := 1 / 2

theorem zero_eq : (0.0 : ℚ) = 0 := by decide +kernel

theorem one_eq : (1.0 : ℚ) = 1 := by decide +kernel

instance bridgeArithmetic_exactNumbers : BridgeArithmetic ℚ where
  zero_le_zero := by decide +kernel
  zero_le_one := by decide +kernel
  one_le_one := by decide +kernel
  not_lt_of_le := fun {x y} h ↦ (@not_lt ℚ _ _ _).mpr h
  isFinite_zero := rfl
  sub_self := fun {x} _ ↦ (sub_self x).trans zero_eq.symm
  not_sub_le_zero := fun {x y} _ _ h ↦ by
    rw [zero_eq]
    exact not_le.mpr (sub_pos.mpr h)
  one_sub_zero := by decide +kernel
  one_mul := fun {x} ↦ by
    rw [one_eq]
    exact one_mul x
  zero_mul_half := by decide +kernel
  one_add_zero := by decide +kernel
  fraction := fun {k n} hk hn _ ↦ by
    rw [zero_eq, one_eq]
    have hn' : (0 : ℚ) < (n : ℚ) := Nat.cast_pos.mpr hn
    refine ⟨add_zero _, div_nonneg (Nat.cast_nonneg k) hn'.le, ?_⟩
    exact (div_le_one hn').mpr (Nat.cast_le.mpr hk)

/-- Blind to beliefs, and without a margin. -/
def coverageArm : AifDecisionPolicy preciseAif where
  params := .default
  joinMargin := 0.0
  trust := ()
  compat := ()
  history := ()

theorem falls_coverageArm (required : UInt32) :
    Falls required fun caps ↦ (CapabilityModel.efeForCoverage preciseAif
      (coverage caps required) coverageArm.params).toOption where
  finite caps := ⟨_, rfl, rfl⟩
  falls := by
    rintro caps caps' _ _ hlt ⟨rfl⟩ ⟨rfl⟩
    have hrequired : required ≠ 0 := by
      rintro rfl
      rw [UInt32.and_zero, UInt32.and_zero] at hlt
      exact lt_irrefl _ hlt
    have hpos : (0 : ℚ) < (countOnes required : ℚ) := Nat.cast_pos.mpr (countOnes_pos hrequired)
    rw [coverage, coverage, if_neg hrequired, if_neg hrequired]
    exact neg_lt_neg (div_lt_div_of_pos_right (Nat.cast_lt.mpr hlt) hpos)

/-- How precisely the required bits are observed. -/
theorem efeForCoverage_preciseAif (required covered : UInt32) (hrequired : required ≠ 0) :
    MultiModalModel.efeForCoverage preciseAif required covered .default =
      .ok (-(1 / 2 * (countOnes required : ℚ) +
        9 / 20 * (countOnes (covered &&& required) : ℚ))) := by
  have hsum := sum_over_bits (setBits required 32)
    (fun i ↦ covered &&& 1 <<< UInt32.ofNat i ≠ 0) (1 / 2) (9 / 20)
  rw [length_setBits, countP_setBits] at hsum
  rw [MultiModalModel.efeForCoverage, if_neg hrequired]
  refine congrArg (fun x : ℚ ↦ Except.ok (-x)) (Eq.trans ?_ hsum)
  rw [List.map_map, List.map_map]
  refine congrArg List.sum (List.map_congr_left fun i _ ↦ ?_)
  have hhalf : (0.5 : ℚ) = 1 / 2 := by decide +kernel
  have hrest : (BridgeParams.default : BridgeParams ℚ).maxPrecision - 0.5 = 9 / 20 := by
    decide +kernel
  exact congrArg₂ (fun x y : ℚ ↦ x + y * _) hhalf hrest

theorem falls_default (required : UInt32) :
    Falls required fun covered ↦ (MultiModalModel.efeForCoverage preciseAif required covered
      AifMmDecisionPolicy.default.params).toOption where
  finite caps := ⟨_, rfl, rfl⟩
  falls := by
    intro caps caps' g g' hlt hg hg'
    have hrequired : required ≠ 0 := by
      rintro rfl
      rw [UInt32.and_zero, UInt32.and_zero] at hlt
      exact lt_irrefl _ hlt
    have hcount : (countOnes (caps &&& required) : ℚ) < (countOnes (caps' &&& required) : ℚ) :=
      Nat.cast_lt.mpr hlt
    rw [AifMmDecisionPolicy.default, efeForCoverage_preciseAif _ _ hrequired] at hg hg'
    obtain rfl := Option.some.inj hg
    obtain rfl := Option.some.inj hg'
    refine neg_lt_neg (add_lt_add_right ?_ _)
    exact mul_lt_mul_of_pos_left hcount (by decide +kernel)

theorem newcomers_are_kept :
    (coverageArm.shouldJoin ⟨2, 0b10, 50⟩ [⟨1, 0b01, 50⟩] ⟨0b11⟩).act = true ∧
      Admission ⟨2, 0b10, 50⟩ [⟨1, 0b01, 50⟩] 0b11
        (coverageArm.shouldJoin ⟨2, 0b10, 50⟩ [⟨1, 0b01, 50⟩] ⟨0b11⟩)
        (coverageArm.shouldLeave ⟨2, 0b10, 50⟩ ([⟨1, 0b01, 50⟩] ++ [⟨2, 0b10, 50⟩]) ⟨0b11⟩) ∧
      Admission ⟨2, 0b10, 50⟩ [⟨1, 0b01, 50⟩] 0b11
        (AifMmDecisionPolicy.default.shouldJoin preciseAif ⟨2, 0b10, 50⟩ [⟨1, 0b01, 50⟩] ⟨0b11⟩)
        (AifMmDecisionPolicy.default.shouldLeave preciseAif ⟨2, 0b10, 50⟩
          ([⟨1, 0b01, 50⟩] ++ [⟨2, 0b10, 50⟩]) ⟨0b11⟩) := by
  have hsample := arms_admit_and_keep preciseAif 0b11 ⟨2, 0b10, 50⟩ [⟨1, 0b01, 50⟩] (by decide)
  refine ⟨by decide +kernel,
    hsample.1 coverageArm (by decide +kernel) rfl (falls_coverageArm _), ?_⟩
  exact hsample.2 .default (by decide +kernel) (falls_default _)

/-- An agent that can do a part of what the only member can do is let in, and told to leave. -/
theorem a_passenger_is_let_in :
    (2 : Nat) ∉ ([⟨1, 0b11, 50⟩] : List CapabilityAgent).map (·.id) ∧
      (0.0 : ℚ) ≤ coverageArm.joinMargin ∧ coverageArm.params.beliefWeight = 0.0 ∧
      (Falls 0b11 fun caps ↦ (CapabilityModel.efeForCoverage preciseAif
        (coverage caps 0b11) coverageArm.params).toOption) ∧
      (coverageArm.shouldJoin ⟨2, 0b01, 50⟩ [⟨1, 0b11, 50⟩] ⟨0b11⟩).act = true ∧
      (coverageArm.shouldLeave ⟨2, 0b01, 50⟩ [⟨1, 0b11, 50⟩, ⟨2, 0b01, 50⟩] ⟨0b11⟩).act = true ∧
      (0.0 : ℚ) ≤ AifMmDecisionPolicy.default.joinMargin ∧
      (Falls 0b11 fun covered ↦ (MultiModalModel.efeForCoverage preciseAif 0b11 covered
        AifMmDecisionPolicy.default.params).toOption) ∧
      (AifMmDecisionPolicy.default.shouldJoin preciseAif ⟨2, 0b01, 50⟩ [⟨1, 0b11, 50⟩]
        ⟨0b11⟩).act = true ∧
      (AifMmDecisionPolicy.default.shouldLeave preciseAif ⟨2, 0b01, 50⟩
        [⟨1, 0b11, 50⟩, ⟨2, 0b01, 50⟩] ⟨0b11⟩).act = true :=
  ⟨by decide, by decide +kernel, rfl, falls_coverageArm _, by decide +kernel, by decide +kernel,
    by decide +kernel, falls_default _, by decide +kernel, by decide +kernel⟩

end Sample

end Koalisi.Decision
