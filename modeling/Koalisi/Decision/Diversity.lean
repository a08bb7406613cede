import Mathlib.Algebra.Order.Ring.Rat
import Koalisi.Lib.Diversity
import Koalisi.Decision.Cache
import Koalisi.Decision.Members

/-!
# The magnitude is the diversity of the masks

The engine closes the couplings of the members, merges the members that are mutually coupled
at 1, and sums up the entries of the inverse.  Members are coupled by how much of what the
one holds of the task the other holds too, so two of them are merged just when they hold the
same of the task.  What is left is the set of what the members hold: the magnitude is the
diversity of that set.

So it does not matter in which order the members come, how many of them hold the same, what
they hold besides, or who else is there; and groups that hold nothing in common add up.
-/

namespace Koalisi.Decision

open Koalisi.Lib Koalisi.Lib.Masks
open Koalisi.Harness (CapabilityAgent)

variable {K : Type} [Field K] [LinearOrder K]

/-! ## What is assumed of the engine -/

/-- How well a slot stands in for another one: fully for itself, and otherwise as it is listed. -/
def strength (couplings : List (Coupling K)) (i j : Nat) : K :=
  if i = j then 1
  else (couplings.find? fun c ↦ c.1 = i ∧ c.2.1 = j).elim 0 fun c ↦ c.2.2

/-- The magnitude is the sum of the entries of the inverse, which has a row for each class of
members that stand in for each other fully; there is none where there is no inverse. -/
structure CatgraphMagnitude.InverseSum (cg : CatgraphMagnitude K) : Prop where
  value : ∀ agents couplings members, Valid agents couplings members →
    ∃ reps, Representatives (closeThrough (strength couplings) members) members reps ∧
      (cg.coalitionValue agents couplings members).toOption =
        inverseSum (tableOf (closeThrough (strength couplings) members) reps)

section Strength

variable {agents members : List Nat} {couplings : List (Coupling K)} {i j : Nat} {p : K}

omit [LinearOrder K] in
theorem strength_self : strength couplings i i = 1 := if_pos rfl

omit [LinearOrder K] in
/-- Between different slots the strength is listed, or there is none. -/
theorem strength_cases (couplings : List (Coupling K)) (hne : i ≠ j) :
    (i, j, strength couplings i j) ∈ couplings ∨
      (∀ p, (i, j, p) ∉ couplings) ∧ strength couplings i j = 0 := by
  rw [strength, if_neg hne]
  cases hfind : couplings.find? fun c ↦ c.1 = i ∧ c.2.1 = j with
  | none =>
      refine .inr ⟨fun p hp ↦ ?_, rfl⟩
      exact List.find?_eq_none.mp hfind _ hp (decide_eq_true ⟨rfl, rfl⟩)
  | some c =>
      obtain ⟨i', j', p⟩ := c
      have hfound : decide (i' = i ∧ j' = j) = true :=
        List.find?_some (p := fun c : Coupling K ↦ c.1 = i ∧ c.2.1 = j) hfind
      obtain ⟨rfl, rfl⟩ := of_decide_eq_true hfound
      exact .inl (List.mem_of_find?_eq_some hfind)

theorem strength_of_mem (h : Valid agents couplings members) (hij : (i, j, p) ∈ couplings) :
    strength couplings i j = p := by
  rcases strength_cases couplings (h.bounded i j p hij).2.2.1 with hmem | ⟨hnone, -⟩
  · exact h.unique _ _ _ _ hmem hij
  · exact absurd hij (hnone p)

theorem strengths_strength [IsStrictOrderedRing K] (h : Valid agents couplings members) :
    Strengths (strength couplings) := by
  have hbounds : ∀ i j, 0 ≤ strength couplings i j ∧ strength couplings i j ≤ 1 := by
    intro i j
    by_cases hij : i = j
    · subst hij
      rw [strength_self]
      exact ⟨zero_le_one, le_rfl⟩
    · rcases strength_cases couplings hij with hmem | ⟨-, hzero⟩
      · exact (h.bounded _ _ _ hmem).2.2.2
      · rw [hzero]
        exact ⟨le_rfl, zero_le_one⟩
  exact ⟨fun i j ↦ (hbounds i j).1, fun i j ↦ (hbounds i j).2⟩

end Strength

/-! ## Masks that stand in for each other -/

/-- How much of what the first mask holds the second one holds too. -/
def standIn (a b : UInt32) : K := (countOnes (a &&& b) : K) / (countOnes a : K)

section StandIn

variable [IsStrictOrderedRing K] {a b c : UInt32}

theorem strengths_standIn : Strengths (standIn : UInt32 → UInt32 → K) where
  nonneg _ _ := div_nonneg (Nat.cast_nonneg _) (Nat.cast_nonneg _)
  le_one _ _ := div_le_one_of_le₀ (Nat.cast_le.mpr countOnes_and_le) (Nat.cast_nonneg _)

/-- A mask is stood in for fully by those that hold all that it holds. -/
theorem standIn_eq_one : (standIn a b : K) = 1 ↔ a ≠ 0 ∧ a &&& b = a := by
  constructor
  · intro h
    have ha : a ≠ 0 := by
      rintro rfl
      rw [standIn, UInt32.zero_and, countOnes_zero, Nat.cast_zero, div_zero] at h
      exact zero_ne_one h
    refine ⟨ha, countOnes_and_eq_iff.mp (Nat.cast_injective (R := K) ?_)⟩
    exact (div_eq_one_iff_eq (Nat.cast_ne_zero.mpr (Nat.ne_of_gt (countOnes_pos ha)))).mp h
  · rintro ⟨ha, hab⟩
    rw [standIn, hab]
    exact div_self (Nat.cast_ne_zero.mpr (Nat.ne_of_gt (countOnes_pos ha)))

theorem standIn_self (ha : a ≠ 0) : (standIn a a : K) = 1 :=
  standIn_eq_one.mpr ⟨ha, UInt32.and_self⟩

theorem standIn_full (hac : (standIn a c : K) = 1) (hcb : (standIn c b : K) = 1) :
    (standIn a b : K) = 1 := by
  obtain ⟨ha, hac⟩ := standIn_eq_one.mp hac
  obtain ⟨-, hcb⟩ := standIn_eq_one.mp hcb
  refine standIn_eq_one.mpr ⟨ha, and_eq_left_iff.mpr fun i hi ↦ ?_⟩
  exact and_eq_left_iff.mp hcb i (and_eq_left_iff.mp hac i hi)

theorem standIn_antisymm (hab : (standIn a b : K) = 1) (hba : (standIn b a : K) = 1) : a = b := by
  obtain ⟨-, hab⟩ := standIn_eq_one.mp hab
  obtain ⟨-, hba⟩ := standIn_eq_one.mp hba
  rw [← hab, UInt32.and_comm]
  exact hba

omit [LinearOrder K] [IsStrictOrderedRing K] in
theorem standIn_of_apart (hab : a &&& b = 0) : (standIn a b : K) = 0 := by
  rw [standIn, hab, countOnes_zero, Nat.cast_zero, zero_div]

end StandIn

/-! ## The magnitude of masks -/

section Masks

variable {masks : List UInt32} {required : UInt32} {i j : Nat}

/-- What the masks hold of the task. -/
def heldOf (masks : List UInt32) (required : UInt32) : Finset UInt32 :=
  (masks.map (· &&& required)).toFinset

theorem mem_heldOf {m : UInt32} :
    m ∈ heldOf masks required ↔ ∃ mask ∈ masks, mask &&& required = m := by
  rw [heldOf, List.mem_toFinset, List.mem_map]

/-- What the mask in a slot holds of the task. -/
def heldAt (masks : List UInt32) (required : UInt32) (i : Nat) : UInt32 :=
  masks.getD i 0 &&& required

theorem mem_heldOf_iff_heldAt {m : UInt32} :
    m ∈ heldOf masks required ↔ ∃ i ∈ List.range masks.length, heldAt masks required i = m := by
  rw [mem_heldOf]
  constructor
  · rintro ⟨mask, hmask, rfl⟩
    obtain ⟨i, hi, rfl⟩ := List.mem_iff_getElem.mp hmask
    exact ⟨i, List.mem_range.mpr hi, by rw [heldAt, List.getD_eq_getElem _ _ hi]⟩
  · rintro ⟨i, hi, rfl⟩
    rw [List.mem_range] at hi
    exact ⟨masks[i], List.getElem_mem hi, by rw [heldAt, List.getD_eq_getElem _ _ hi]⟩

variable [IsStrictOrderedRing K]

/-- The slots are as strong as what they hold. -/
theorem strength_memberCouplings (hrel : ∀ mask ∈ masks, mask &&& required ≠ 0)
    (hi : i ∈ List.range masks.length) (hj : j ∈ List.range masks.length) :
    strength (memberCouplings masks required : List (Coupling K)) i j =
      standIn (heldAt masks required i) (heldAt masks required j) := by
  rw [List.mem_range] at hi hj
  have hne : masks ≠ [] := List.ne_nil_of_length_pos (Nat.zero_lt_of_lt hi)
  rw [heldAt, heldAt, List.getD_eq_getElem _ _ hi, List.getD_eq_getElem _ _ hj]
  by_cases hij : i = j
  · subst hij
    rw [strength_self, standIn_self (hrel _ (List.getElem_mem hi))]
  · have hcoupling : coupling masks[i] masks[j] required =
        (standIn (masks[i] &&& required) (masks[j] &&& required) : K) := coupling_eq_div _ _ _
    have ha := List.getElem?_eq_getElem hi
    have hb := List.getElem?_eq_getElem hj
    rw [← hcoupling]
    by_cases hpos : 0 < (coupling masks[i] masks[j] required : K)
    · exact strength_of_mem (valid_members hne)
        (mem_memberCouplings.mpr ⟨hij, hpos, masks[i], masks[j], ha, hb, rfl⟩)
    · -- a coupling that is not positive is not listed
      rw [le_antisymm (not_lt.mp hpos) (coupling_nonneg _ _ _)]
      rcases strength_cases (memberCouplings masks required : List (Coupling K)) hij with
        hmem | ⟨-, hzero⟩
      · obtain ⟨-, hpos', a, b, ha', hb', heq⟩ := mem_memberCouplings.mp hmem
        cases ha.symm.trans ha'
        cases hb.symm.trans hb'
        exact absurd (heq ▸ hpos') hpos
      · exact hzero

/-- **The magnitude of masks** that all hold something of the task is the diversity of what
they hold. -/
theorem magnitudeOrZero_eq {cg : CatgraphMagnitude K} (hcg : cg.InverseSum)
    (hrel : ∀ mask ∈ masks, mask &&& required ≠ 0) :
    (magnitudeOrZero cg masks required).toOption = diversity standIn (heldOf masks required) := by
  by_cases hne : masks = []
  · subst hne
    have hempty : heldOf [] required = ∅ := rfl
    rw [hempty, diversity_empty]
    rfl
  · rw [magnitudeOrZero, if_neg (by rwa [List.isEmpty_iff]), magnitudeOfMasks]
    obtain ⟨reps, hreps, hvalue⟩ := hcg.value _ _ _ (valid_members hne)
    rw [hvalue]
    refine diversity_of_representatives strengths_standIn (fun m hm ↦ ?_) (fun _ _ _ ↦ standIn_full)
      (fun _ _ _ _ ↦ standIn_antisymm) (heldAt masks required)
      (fun i hi j hj ↦ strength_memberCouplings hrel hi hj) (fun m ↦ mem_heldOf_iff_heldAt) hreps
    obtain ⟨mask, hmask, rfl⟩ := mem_heldOf.mp hm
    exact standIn_self (hrel mask hmask)

end Masks

/-! ## An engine that inverts -/

section Engine

/-- The strengths of the ways between members. -/
def ways (couplings : List (Coupling ℚ)) (members : List Nat) : Nat → Nat → ℚ :=
  closeThrough (strength couplings) members

/-- The first members of their classes, from the back. -/
def kept (couplings : List (Coupling ℚ)) (members : List Nat) : List Nat :=
  members.pwFilter fun i j ↦ ¬Mutual (ways couplings members) i j

/-- The magnitude by its definition. -/
noncomputable def inverseValue (couplings : List (Coupling ℚ)) (members : List Nat) :
    Except Unit ℚ :=
  (inverseSum (tableOf (ways couplings members) (kept couplings members))).elim (.error ()) .ok

/-- The engine that inverts, whose evaluators do so as well. -/
noncomputable def inverseCatgraph : CatgraphMagnitude ℚ where
  CatgraphError := Unit
  CoalitionEvaluator := List (Coupling ℚ) × List Nat
  EvalScratch := Unit
  RoleModulation := Unit
  coalitionValue _ couplings members := inverseValue couplings members
  newEvaluator _ couplings members _ :=
    (inverseValue couplings members).map fun _ ↦ (couplings, members)
  newScratch := ()
  baseValue evaluator := (inverseValue evaluator.1 evaluator.2).toOption.getD 0
  valueWithScratch evaluator c scratch := (inverseValue evaluator.1 (evaluator.2 ++ [c]), scratch)
  modulate couplings _ _ := .ok couplings

variable {f : Nat → Nat} {agents agents' members members' : List Nat}
  {couplings couplings' : List (Coupling ℚ)}

theorem toOption_inverseValue : (inverseValue couplings members).toOption =
    inverseSum (tableOf (ways couplings members) (kept couplings members)) := by
  unfold inverseValue
  cases inverseSum (tableOf (ways couplings members) (kept couplings members)) with
  | none => rfl
  | some m => rfl

theorem representatives_kept (h : Valid agents couplings members) :
    Representatives (ways couplings members) members (kept couplings members) := by
  refine representatives_pwFilter fun i _ ↦ le_antisymm ?_ ?_
  · exact ((strengths_strength h).closeThrough members).le_one i i
  · have hself : strength couplings i i = 1 := strength_self
    rw [← hself]
    exact le_closeThrough _ _ _ _

theorem inverseSum_inverseCatgraph : inverseCatgraph.InverseSum where
  value _ _ _ h := ⟨_, representatives_kept h, toOption_inverseValue⟩

end Engine

/-! ## The magnitude of agents -/

section Agents

variable {agents agents' : List CapabilityAgent} {required m : UInt32}

/-- What some agents hold of the task. -/
def heldBy (agents : List CapabilityAgent) (required : UInt32) : Finset UInt32 :=
  heldOf (relevantMasks agents required) required

theorem mem_heldBy (hids : (agents.map (·.id)).Nodup) :
    m ∈ heldBy agents required ↔ m ≠ 0 ∧ ∃ a ∈ agents, a.capabilities &&& required = m := by
  have hmem : ∀ a, a ∈ relevantAgents required [] agents ↔
      a ∈ agents ∧ a.capabilities &&& required ≠ 0 :=
    fun a ↦ mem_relevantAgents hids fun _ _ ↦ List.not_mem_nil
  rw [heldBy, mem_heldOf, relevantMasks_eq]
  constructor
  · rintro ⟨mask, hmask, rfl⟩
    obtain ⟨a, ha, rfl⟩ := List.mem_map.mp hmask
    obtain ⟨ha, hrel⟩ := (hmem a).mp ha
    exact ⟨hrel, a, ha, rfl⟩
  · rintro ⟨hrel, a, ha, rfl⟩
    exact ⟨a.capabilities, List.mem_map_of_mem ((hmem a).mpr ⟨ha, hrel⟩), rfl⟩

theorem ne_zero_of_mem_relevantMasks {mask : UInt32} (h : mask ∈ relevantMasks agents required) :
    mask &&& required ≠ 0 := by
  rw [relevantMasks_eq] at h
  obtain ⟨a, ha, rfl⟩ := List.mem_map.mp h
  exact (of_mem_relevantAgents ha).2.1

variable [IsStrictOrderedRing K] {cg : CatgraphMagnitude K}

/-- The magnitude of agents is the diversity of what they hold. -/
theorem magnitude_eq_diversity (hcg : cg.InverseSum) (agents : List CapabilityAgent)
    (required : UInt32) :
    (magnitudeOrZero cg (relevantMasks agents required) required).toOption =
      diversity standIn (heldBy agents required) :=
  magnitudeOrZero_eq hcg fun _ ↦ ne_zero_of_mem_relevantMasks

/-- Agents that share nothing of the task do not stand in for each other. -/
theorem apart_of_sharesNothing {a b : UInt32} (h : a &&& b &&& required = 0) :
    (a &&& required) &&& (b &&& required) = 0 := by
  rw [← h]
  refine Masks.ext fun i ↦ ?_
  simp only [holds_and]
  cases Holds a i <;> cases Holds b i <;> cases Holds required i <;> rfl

/-- Masks that share nothing add up. -/
theorem diversity_union_of_apart {S T : Finset UInt32} (hrel : ∀ mask ∈ S, mask ≠ 0)
    (hapart : ∀ a ∈ S, ∀ b ∈ T, a &&& b = 0) :
    (diversity standIn (S ∪ T) : Option K) =
      (diversity standIn S).bind fun m ↦ (diversity standIn T).map fun m' ↦ m + m' := by
  refine diversity_union strengths_standIn (Finset.disjoint_left.mpr fun mask hmask hmask' ↦ ?_)
    fun a ha b hb ↦ ⟨standIn_of_apart (hapart a ha b hb), standIn_of_apart ?_⟩
  · have hself := hapart mask hmask mask hmask'
    rw [UInt32.and_self] at hself
    exact hrel mask hmask hself
  · rw [UInt32.and_comm]
    exact hapart a ha b hb

/-- **The magnitude sees only what is held of the task**, and it adds up over groups that hold
nothing in common.  Of two lists of agents that hold the same of the task, the one has a
magnitude if and only if the other has, and then it is the same. -/
theorem magnitude_sees_what_is_held (hcg : cg.InverseSum) (required : UInt32) :
    (∀ agents agents' : List CapabilityAgent,
      (agents.map (·.id)).Nodup → (agents'.map (·.id)).Nodup →
      (∀ m, m ≠ 0 → ((∃ a ∈ agents, a.capabilities &&& required = m) ↔
        ∃ a ∈ agents', a.capabilities &&& required = m)) →
      (magnitudeOrZero cg (relevantMasks agents required) required).toOption =
        (magnitudeOrZero cg (relevantMasks agents' required) required).toOption) ∧
    ∀ agents agents' : List CapabilityAgent, ((agents ++ agents').map (·.id)).Nodup →
      (∀ a ∈ agents, ∀ b ∈ agents', a.capabilities &&& b.capabilities &&& required = 0) →
      (magnitudeOrZero cg (relevantMasks (agents ++ agents') required) required).toOption =
        (magnitudeOrZero cg (relevantMasks agents required) required).toOption.bind fun m ↦
          (magnitudeOrZero cg (relevantMasks agents' required) required).toOption.map fun m' ↦
            m + m' := by
  constructor
  · intro agents agents' hids hids' hsame
    have hheld : heldBy agents required = heldBy agents' required := by
      ext m
      rw [mem_heldBy hids, mem_heldBy hids']
      exact and_congr_right (hsame m)
    rw [magnitude_eq_diversity hcg, magnitude_eq_diversity hcg, hheld]
  · intro agents agents' hids hapart
    have hnodup := hids
    rw [List.map_append, List.nodup_append] at hnodup
    obtain ⟨hids₁, hids₂, -⟩ := hnodup
    have hheld : heldBy (agents ++ agents') required =
        heldBy agents required ∪ heldBy agents' required := by
      ext m
      rw [Finset.mem_union, mem_heldBy hids, mem_heldBy hids₁, mem_heldBy hids₂, ← and_or_left]
      refine and_congr_right fun _ ↦ ?_
      simp only [List.mem_append, or_and_right, exists_or]
    have hzero : ∀ m ∈ heldBy agents required, ∀ m' ∈ heldBy agents' required, m &&& m' = 0 := by
      intro m hm m' hm'
      obtain ⟨-, a, ha, rfl⟩ := (mem_heldBy hids₁).mp hm
      obtain ⟨-, b, hb, rfl⟩ := (mem_heldBy hids₂).mp hm'
      exact apart_of_sharesNothing (hapart a ha b hb)
    rw [magnitude_eq_diversity hcg, magnitude_eq_diversity hcg, magnitude_eq_diversity hcg, hheld]
    exact diversity_union_of_apart (fun m hm ↦ ((mem_heldBy hids₁).mp hm).1) hzero

end Agents

/-- A clone, a bystander and what is held besides do not matter, and the agent that shares nothing
with the others adds what it has alone. -/
theorem clones_and_bystanders_do_not_matter :
    (magnitudeOrZero inverseCatgraph (relevantMasks
        [⟨1, 0b0011, 50⟩, ⟨2, 0b0001, 50⟩, ⟨3, 0b10000, 50⟩] 0b1111) 0b1111).toOption =
      (magnitudeOrZero inverseCatgraph (relevantMasks
        [⟨5, 0b10001, 50⟩, ⟨6, 0b0001, 50⟩, ⟨7, 0b0011, 50⟩] 0b1111) 0b1111).toOption ∧
    (magnitudeOrZero inverseCatgraph (relevantMasks
        ([⟨1, 0b0011, 50⟩, ⟨2, 0b0001, 50⟩] ++ [⟨4, 0b1100, 50⟩]) 0b1111) 0b1111).toOption =
      (magnitudeOrZero inverseCatgraph (relevantMasks
        [⟨1, 0b0011, 50⟩, ⟨2, 0b0001, 50⟩] 0b1111) 0b1111).toOption.bind fun m ↦
          (magnitudeOrZero inverseCatgraph (relevantMasks
            [⟨4, 0b1100, 50⟩] 0b1111) 0b1111).toOption.map fun m' ↦ m + m' := by
  have hsample := magnitude_sees_what_is_held inverseSum_inverseCatgraph 0b1111
  refine ⟨hsample.1 _ _ (by decide) (by decide) fun m hm ↦ ⟨?_, ?_⟩,
    hsample.2 _ _ (by decide) (by decide)⟩
  · rintro ⟨a, ha, rfl⟩
    simp only [List.mem_cons, List.not_mem_nil, or_false] at ha
    rcases ha with rfl | rfl | rfl
    · decide
    · decide
    · exact absurd (by decide) hm
  · rintro ⟨a, ha, rfl⟩
    simp only [List.mem_cons, List.not_mem_nil, or_false] at ha
    rcases ha with rfl | rfl | rfl
    · decide
    · decide
    · decide

end Koalisi.Decision
