import Mathlib.Algebra.BigOperators.Group.List.Basic
import Mathlib.Data.List.Perm.Basic
import Mathlib.Data.Set.Function
import Koalisi.Lib.Bands
import Koalisi.Decision.Magnitude

/-!
# What a magnitude depends on

The engine is handed slots and couplings.  What the policy relies on is that a magnitude
depends on the couplings among the members only, not on how their slots are numbered or in
which order they are listed, and that an evaluator answers as if the magnitude were computed
afresh, up to a small error for a candidate.

So the same masks have the same magnitude wherever their slots are, and an evaluator for
some masks and a pool of candidates answers for the masks, and for the masks with a
candidate at the end.
-/

namespace Koalisi.Decision

open Koalisi.Lib Koalisi.Lib.Masks
open Koalisi.Harness (CapabilityAgent)

variable {K : Type} [Field K]

/-! ## Couplings with nobody -/

section Irrelevant

variable {a b required : UInt32}

/-- An agent that holds nothing of the task is coupled to nobody. -/
theorem coupling_of_irrelevant (h : a &&& required = 0) : coupling a b required = (0 : K) :=
  if_pos h

theorem coupling_to_irrelevant (h : b &&& required = 0) : coupling a b required = (0 : K) := by
  rw [coupling]
  split
  · rfl
  · rw [h, UInt32.and_zero, countOnes_zero, Nat.cast_zero, zero_div]

end Irrelevant

variable [LinearOrder K]

/-! ## What is assumed of the engine -/

/-- What may be handed to the engine: some of the agents as members, and couplings between
different agents, not two for the same pair. -/
structure Valid (agents : List Nat) (couplings : List (Coupling K)) (members : List Nat) :
    Prop where
  agents_nodup : agents.Nodup
  members_nodup : members.Nodup
  members_subset : members ⊆ agents
  members_ne_nil : members ≠ []
  bounded : ∀ i j p, (i, j, p) ∈ couplings →
    i ∈ agents ∧ j ∈ agents ∧ i ≠ j ∧ 0 ≤ p ∧ p ≤ 1
  unique : ∀ i j p p', (i, j, p) ∈ couplings → (i, j, p') ∈ couplings → p = p'

/-- Renumbering the members of one coalition gives the members of the other one, in some
order, with the same couplings. -/
structure Alike (f : Nat → Nat) (couplings : List (Coupling K)) (members : List Nat)
    (couplings' : List (Coupling K)) (members' : List Nat) : Prop where
  injective : Set.InjOn f {i | i ∈ members}
  perm : (members.map f).Perm members'
  coupled : ∀ i ∈ members, ∀ j ∈ members, ∀ p,
    (i, j, p) ∈ couplings ↔ (f i, f j, p) ∈ couplings'

/-- The relative error of an answer for a candidate. -/
def incrementalRelTol : K := 1 / 1000000000

/-- How an answer must be for what is computed afresh: an error for an error, and a value
for a value that is near to it. -/
def Tracks (exact answer : Option K) : Prop := Option.Rel (Near incrementalRelTol) exact answer

/-- What the policy relies on of the engine, where numbers are exact. -/
structure CatgraphMagnitude.Exact (cg : CatgraphMagnitude K) : Prop where
  value_congr : ∀ f agents couplings members agents' couplings' members',
    Valid agents couplings members → Valid agents' couplings' members' →
    Alike f couplings members couplings' members' →
    (cg.coalitionValue agents couplings members).toOption =
      (cg.coalitionValue agents' couplings' members').toOption
  /-- An evaluator is built where the members have a magnitude, and it knows it. -/
  new_base : ∀ agents couplings members, Valid agents couplings members →
    ((cg.newEvaluator agents couplings members 1).map cg.baseValue).toOption =
      (cg.coalitionValue agents couplings members).toOption
  value_with : ∀ agents couplings members c evaluator scratch, Valid agents couplings members →
    cg.newEvaluator agents couplings members 1 = .ok evaluator → c ∈ agents → c ∉ members →
    Tracks (cg.coalitionValue agents couplings (members ++ [c])).toOption
      (cg.valueWithScratch evaluator c scratch).1.toOption

/-! ## Couplings -/

section Couplings

variable {a b required : UInt32} {i j : Nat} {p : K} {masks candidateMasks : List UInt32}

theorem mem_positive {c c' : Coupling K} : c ∈ positive c' ↔ c = c' ∧ 0 < c.2.2 := by
  rw [positive]
  split
  · next hpos =>
      rw [List.mem_singleton]
      constructor
      · rintro rfl
        exact ⟨rfl, hpos⟩
      · exact And.left
  · next hpos =>
      constructor
      · intro h
        cases h
      · rintro ⟨rfl, h⟩
        exact absurd h hpos

theorem mem_memberCouplings :
    (i, j, p) ∈ memberCouplings masks required ↔
      i ≠ j ∧ 0 < p ∧
        ∃ a b, masks[i]? = some a ∧ masks[j]? = some b ∧ p = coupling a b required := by
  rw [memberCouplings, List.mem_flatMap]
  constructor
  · rintro ⟨⟨a, i'⟩, ha, h⟩
    obtain ⟨⟨b, j'⟩, hb, h⟩ := List.mem_flatMap.mp h
    rw [List.mk_mem_zipIdx_iff_getElem?] at ha hb
    dsimp only at h
    split at h
    · cases h
    · next hne =>
        obtain ⟨heq, hpos⟩ := mem_positive.mp h
        cases heq
        exact ⟨hne, hpos, a, b, ha, hb, rfl⟩
  · rintro ⟨hne, hpos, a, b, ha, hb, rfl⟩
    refine ⟨(a, i), List.mk_mem_zipIdx_iff_getElem?.mpr ha, List.mem_flatMap.mpr
      ⟨(b, j), List.mk_mem_zipIdx_iff_getElem?.mpr hb, ?_⟩⟩
    dsimp only
    rw [if_neg hne]
    exact mem_positive.mpr ⟨rfl, hpos⟩

theorem mem_candidateCouplings :
    (i, j, p) ∈ candidateCouplings masks candidateMasks required ↔
      0 < p ∧ ∃ s k c a, candidateMasks[s]? = some c ∧ masks[k]? = some a ∧
        (i = k ∧ j = masks.length + s ∧ p = coupling a c required ∨
          i = masks.length + s ∧ j = k ∧ p = coupling c a required) := by
  rw [candidateCouplings, List.mem_flatMap]
  constructor
  · rintro ⟨⟨c, s⟩, hc, h⟩
    dsimp only at h
    split at h
    · cases h
    · obtain ⟨⟨a, k⟩, ha, h⟩ := List.mem_flatMap.mp h
      rw [List.mk_mem_zipIdx_iff_getElem?] at ha hc
      rcases List.mem_append.mp h with h | h
      · obtain ⟨heq, hpos⟩ := mem_positive.mp h
        cases heq
        exact ⟨hpos, s, k, c, a, hc, ha, .inl ⟨rfl, rfl, rfl⟩⟩
      · obtain ⟨heq, hpos⟩ := mem_positive.mp h
        cases heq
        exact ⟨hpos, s, k, c, a, hc, ha, .inr ⟨rfl, rfl, rfl⟩⟩
  · rintro ⟨hpos, s, k, c, a, hc, ha, h⟩
    refine ⟨(c, s), List.mk_mem_zipIdx_iff_getElem?.mpr hc, ?_⟩
    dsimp only
    -- a candidate that is skipped would only have couplings that are zero
    have hrel : ¬c &&& required = 0 := by
      intro hzero
      rcases h with ⟨-, -, rfl⟩ | ⟨-, -, rfl⟩
      · rw [coupling_to_irrelevant hzero] at hpos
        exact lt_irrefl 0 hpos
      · rw [coupling_of_irrelevant hzero] at hpos
        exact lt_irrefl 0 hpos
    rw [if_neg hrel]
    refine List.mem_flatMap.mpr ⟨(a, k), List.mk_mem_zipIdx_iff_getElem?.mpr ha, ?_⟩
    rcases h with ⟨rfl, rfl, rfl⟩ | ⟨rfl, rfl, rfl⟩
    · exact List.mem_append_left _ (mem_positive.mpr ⟨rfl, hpos⟩)
    · exact List.mem_append_right _ (mem_positive.mpr ⟨rfl, hpos⟩)

/-- The couplings an evaluator is built from, by the masks in its slots. -/
theorem mem_evaluatorCouplings :
    (i, j, p) ∈ memberCouplings masks required ++ candidateCouplings masks candidateMasks required ↔
      i ≠ j ∧ (i < masks.length ∨ j < masks.length) ∧ 0 < p ∧
        ∃ a b, (masks ++ candidateMasks)[i]? = some a ∧ (masks ++ candidateMasks)[j]? = some b ∧
          p = coupling a b required := by
  have hmember : ∀ {k : Nat} {a : UInt32}, masks[k]? = some a →
      k < masks.length ∧ (masks ++ candidateMasks)[k]? = some a := by
    intro k a ha
    obtain ⟨hk, -⟩ := List.getElem?_eq_some_iff.mp ha
    exact ⟨hk, (List.getElem?_append_left hk).trans ha⟩
  have hcandidate : ∀ {s : Nat} {c : UInt32}, candidateMasks[s]? = some c →
      (masks ++ candidateMasks)[masks.length + s]? = some c := by
    intro s c hc
    rw [List.getElem?_append_right (Nat.le_add_right _ _), Nat.add_sub_cancel_left]
    exact hc
  rw [List.mem_append, mem_memberCouplings, mem_candidateCouplings]
  constructor
  · rintro (⟨hne, hpos, a, b, ha, hb, rfl⟩ | ⟨hpos, s, k, c, a, hc, ha, h⟩)
    · exact ⟨hne, .inl (hmember ha).1, hpos, a, b, (hmember ha).2, (hmember hb).2, rfl⟩
    · obtain ⟨hk, ha⟩ := hmember ha
      rcases h with ⟨rfl, rfl, rfl⟩ | ⟨rfl, rfl, rfl⟩
      · exact ⟨by omega, .inl hk, hpos, a, c, ha, hcandidate hc, rfl⟩
      · exact ⟨by omega, .inr hk, hpos, c, a, hcandidate hc, ha, rfl⟩
  · rintro ⟨hne, hlt, hpos, a, b, ha, hb, rfl⟩
    rcases Nat.lt_or_ge i masks.length with hi | hi
    · rw [List.getElem?_append_left hi] at ha
      rcases Nat.lt_or_ge j masks.length with hj | hj
      · rw [List.getElem?_append_left hj] at hb
        exact .inl ⟨hne, hpos, a, b, ha, hb, rfl⟩
      · rw [List.getElem?_append_right hj] at hb
        exact .inr ⟨hpos, j - masks.length, i, b, a, hb, ha, .inl ⟨rfl, by omega, rfl⟩⟩
    · have hj : j < masks.length := by omega
      rw [List.getElem?_append_right hi] at ha
      rw [List.getElem?_append_left hj] at hb
      exact .inr ⟨hpos, i - masks.length, j, a, b, ha, hb, .inr ⟨by omega, rfl, rfl⟩⟩

end Couplings

/-! ## The same masks in other slots -/

omit [Field K] [LinearOrder K] in
/-- There is a slot where there is a member. -/
theorem range_length_ne_nil {masks : List UInt32} (hne : masks ≠ []) :
    List.range masks.length ≠ [] := by
  rw [Ne, List.range_eq_nil, List.length_eq_zero_iff]
  exact hne

variable [IsStrictOrderedRing K] {required : UInt32} {masks masks' candidateMasks : List UInt32}

omit [LinearOrder K] [IsStrictOrderedRing K] in
theorem coupling_eq_div (a b required : UInt32) :
    coupling a b required =
      (countOnes ((a &&& required) &&& (b &&& required)) : K) /
        (countOnes (a &&& required) : K) := by
  rw [coupling]
  split
  · next h => rw [h, UInt32.zero_and, countOnes_zero, Nat.cast_zero, zero_div]
  · rfl

theorem coupling_nonneg (a b required : UInt32) : 0 ≤ (coupling a b required : K) := by
  rw [coupling_eq_div]
  exact div_nonneg (Nat.cast_nonneg _) (Nat.cast_nonneg _)

theorem coupling_le_one (a b required : UInt32) : (coupling a b required : K) ≤ 1 := by
  rw [coupling_eq_div]
  exact div_le_one_of_le₀ (Nat.cast_le.mpr countOnes_and_le) (Nat.cast_nonneg _)

/-- An evaluator's input is valid, whichever of its agents are asked for. -/
theorem valid_evaluator {members : List Nat} (hnodup : members.Nodup)
    (hsubset : ∀ i ∈ members, i < masks.length + candidateMasks.length) (hne : members ≠ []) :
    Valid (K := K) (List.range (masks.length + candidateMasks.length))
      (memberCouplings masks required ++ candidateCouplings masks candidateMasks required)
      members where
  agents_nodup := List.nodup_range
  members_nodup := hnodup
  members_subset i hi := List.mem_range.mpr (hsubset i hi)
  members_ne_nil := hne
  bounded i j p h := by
    obtain ⟨hij, -, hpos, a, b, ha, hb, rfl⟩ := mem_evaluatorCouplings.mp h
    obtain ⟨hi, -⟩ := List.getElem?_eq_some_iff.mp ha
    obtain ⟨hj, -⟩ := List.getElem?_eq_some_iff.mp hb
    rw [List.length_append] at hi hj
    exact ⟨List.mem_range.mpr hi, List.mem_range.mpr hj, hij, hpos.le, coupling_le_one a b required⟩
  unique i j p p' h h' := by
    obtain ⟨-, -, -, a, b, ha, hb, rfl⟩ := mem_evaluatorCouplings.mp h
    obtain ⟨-, -, -, a', b', ha', hb', rfl⟩ := mem_evaluatorCouplings.mp h'
    cases ha.symm.trans ha'
    cases hb.symm.trans hb'
    rfl

theorem valid_members (hne : masks ≠ []) :
    Valid (K := K) (List.range masks.length) (memberCouplings masks required)
      (List.range masks.length) := by
  have hrange : List.range masks.length ≠ [] := by
    intro hnil
    exact hne (List.length_eq_zero_iff.mp (List.range_eq_nil.mp hnil))
  have h : Valid (List.range (masks.length + ([] : List UInt32).length))
      (memberCouplings masks required ++ candidateCouplings masks [] required : List (Coupling K))
      (List.range masks.length) :=
    valid_evaluator List.nodup_range (fun i hi ↦ List.mem_range.mp hi) hrange
  rwa [candidateCouplings, List.zipIdx_nil, List.flatMap_nil, List.append_nil] at h

variable {cg : CatgraphMagnitude K} (hcg : cg.Exact)

include hcg

/-- Some slots of an evaluator, filled with masks in some order, have the magnitude of these
masks. -/
theorem value_of_slots {members : List Nat} (masks candidateMasks masks' : List UInt32)
    (required : UInt32) (f : Nat → Nat) (hnodup : members.Nodup)
    (hne : masks' ≠ []) (hperm : (members.map f).Perm (List.range masks'.length))
    (hslots : ∀ i ∈ members, (masks ++ candidateMasks)[i]? = masks'[f i]?)
    (hpool : ∀ i ∈ members, ∀ j ∈ members, i ≠ j → i < masks.length ∨ j < masks.length) :
    (cg.coalitionValue (List.range (masks.length + candidateMasks.length))
      (memberCouplings masks required ++ candidateCouplings masks candidateMasks required)
      members).toOption = (magnitudeOfMasks cg masks' required).toOption := by
  have hlt : ∀ i ∈ members, f i < masks'.length := fun i hi ↦
    List.mem_range.mp (hperm.subset (List.mem_map_of_mem hi))
  have hinj : Set.InjOn f {i | i ∈ members} :=
    List.inj_on_of_nodup_map (hperm.nodup_iff.mpr List.nodup_range)
  refine hcg.value_congr f _ _ _ _ _ _ (valid_evaluator hnodup (fun i hi ↦ ?_) ?_)
    (valid_members hne) ⟨hinj, hperm, fun i hi j hj p ↦ ?_⟩
  · have hsome := hslots i hi
    rw [List.getElem?_eq_getElem (hlt i hi)] at hsome
    obtain ⟨hi, -⟩ := List.getElem?_eq_some_iff.mp hsome
    rwa [List.length_append] at hi
  · rintro rfl
    have := hperm.length_eq
    rw [List.map_nil, List.length_nil, List.length_range] at this
    exact hne (List.length_eq_zero_iff.mp this.symm)
  · rw [mem_evaluatorCouplings, mem_memberCouplings, hslots i hi, hslots j hj,
      show f i ≠ f j ↔ i ≠ j from not_congr (hinj.eq_iff hi hj)]
    constructor
    · rintro ⟨hij, -, h⟩
      exact ⟨hij, h⟩
    · rintro ⟨hij, h⟩
      exact ⟨hij, hpool i hi j hj hij, h⟩

/-- An evaluator knows the magnitude of its members, and is built where they have one. -/
theorem baseValue_buildEvaluator (hne : masks ≠ []) :
    ((buildEvaluator cg required masks candidateMasks).map cg.baseValue).toOption =
      (magnitudeOfMasks cg masks required).toOption := by
  have hrange := range_length_ne_nil hne
  have hlt : ∀ i ∈ List.range masks.length, i < masks.length := fun i hi ↦ List.mem_range.mp hi
  refine (hcg.new_base _ _ _ (valid_evaluator List.nodup_range
    (fun i hi ↦ Nat.lt_add_right _ (hlt i hi)) hrange)).trans ?_
  refine value_of_slots hcg _ _ _ _ id List.nodup_range hne ?_ ?_ ?_
  · rw [List.map_id]
  · exact fun i hi ↦ List.getElem?_append_left (hlt i hi)
  · exact fun i hi _ _ _ ↦ .inl (hlt i hi)

/-- The members and one candidate of an evaluator's pool have the magnitude of their masks. -/
theorem value_of_candidate {pos : Nat} {c : UInt32} (hne : masks ≠ [])
    (hc : candidateMasks[pos]? = some c) :
    (cg.coalitionValue (List.range (masks.length + candidateMasks.length))
      (memberCouplings masks required ++ candidateCouplings masks candidateMasks required)
      (List.range masks.length ++ [masks.length + pos])).toOption =
        (magnitudeOfMasks cg (masks ++ [c]) required).toOption := by
  have hlt : ∀ i ∈ List.range masks.length, i < masks.length := fun i hi ↦ List.mem_range.mp hi
  have hnodup : (List.range masks.length ++ [masks.length + pos]).Nodup :=
    List.nodup_append.mpr ⟨List.nodup_range, List.nodup_singleton _, by
      rintro i hi j hj rfl
      rw [List.mem_singleton] at hj
      exact absurd (hlt i hi) (hj ▸ Nat.not_lt.mpr (Nat.le_add_right _ _))⟩
  -- the candidate's slot is renumbered to come right after the members
  let f : Nat → Nat := fun i ↦ if i < masks.length then i else masks.length
  have hcases : ∀ i ∈ List.range masks.length ++ [masks.length + pos],
      i < masks.length ∨ i = masks.length + pos := by
    intro i hi
    rcases List.mem_append.mp hi with hi | hi
    · exact .inl (hlt i hi)
    · exact .inr (List.mem_singleton.mp hi)
  have hf : f (masks.length + pos) = masks.length :=
    if_neg (Nat.not_lt.mpr (Nat.le_add_right _ _))
  have hmap : (List.range masks.length ++ [masks.length + pos]).map f =
      List.range (masks ++ [c]).length := by
    rw [List.map_append, List.map_singleton, hf, List.length_append, List.length_singleton,
      List.range_succ]
    congr 1
    refine (List.map_congr_left fun i hi ↦ ?_).trans (List.map_id _)
    exact if_pos (hlt i hi)
  refine value_of_slots hcg masks candidateMasks (masks ++ [c]) required f hnodup
    (List.append_ne_nil_of_left_ne_nil hne _) (hmap ▸ .refl _) ?_ ?_
  · intro i hi
    rcases hcases i hi with hi | rfl
    · rw [show f i = i from if_pos hi, List.getElem?_append_left hi, List.getElem?_append_left hi]
    · rw [hf, List.getElem?_append_right (Nat.le_add_right _ _), Nat.add_sub_cancel_left, hc,
        List.getElem?_append_right (Nat.le_refl _), Nat.sub_self]
      rfl
  · intro i hi j hj hij
    have := hcases i hi
    have := hcases j hj
    omega

/-- What an evaluator answers for a candidate in its pool. -/
theorem valueWith_buildEvaluator {evaluator : cg.CoalitionEvaluator} {pos : Nat} {c : UInt32}
    (hne : masks ≠ []) (hbuilt : buildEvaluator cg required masks candidateMasks = .ok evaluator)
    (hc : candidateMasks[pos]? = some c) (scratch : cg.EvalScratch) :
    Tracks (magnitudeOfMasks cg (masks ++ [c]) required).toOption
      (cg.valueWithScratch evaluator (masks.length + pos) scratch).1.toOption := by
  obtain ⟨hpos, -⟩ := List.getElem?_eq_some_iff.mp hc
  have hlt : ∀ i ∈ List.range masks.length, i < masks.length := fun i hi ↦ List.mem_range.mp hi
  have hnotin : masks.length + pos ∉ List.range masks.length := fun h ↦
    absurd (hlt _ h) (Nat.not_lt.mpr (Nat.le_add_right _ _))
  rw [← value_of_candidate hcg hne hc]
  exact hcg.value_with _ _ _ _ _ scratch (valid_evaluator List.nodup_range
    (fun i hi ↦ Nat.lt_add_right _ (hlt i hi)) (range_length_ne_nil hne)) hbuilt
    (List.mem_range.mpr (Nat.add_lt_add_left hpos _)) hnotin

/-- A magnitude does not depend on where a mask stands in the list. -/
theorem magnitudeOfMasks_move (front back : List UInt32) (c : UInt32) :
    (magnitudeOfMasks cg (front ++ c :: back) required).toOption =
      (magnitudeOfMasks cg (front ++ back ++ [c]) required).toOption := by
  let n := front.length + back.length
  let f : Nat → Nat := fun i ↦
    if i < front.length then i else if i = front.length then n else i - 1
  have hlen : (front ++ c :: back).length = n + 1 := by
    rw [List.length_append, List.length_cons]
    omega
  have hlen' : (front ++ back ++ [c]).length = n + 1 := by
    rw [List.length_append, List.length_append, List.length_singleton]
  have hnodup : ((List.range (n + 1)).map f).Nodup := by
    refine List.Nodup.map_on (fun i hi j hj hij ↦ ?_) List.nodup_range
    rw [List.mem_range] at hi hj
    dsimp only [f] at hij
    split at hij <;> split at hij <;> (try split at hij) <;> (try split at hij) <;> omega
  have hsubset : (List.range (n + 1)).map f ⊆ List.range (n + 1) := by
    intro j hj
    obtain ⟨i, hi, rfl⟩ := List.mem_map.mp hj
    rw [List.mem_range] at hi ⊢
    dsimp only [f]
    split
    · omega
    · split <;> omega
  have hperm : ((List.range (n + 1)).map f).Perm (List.range (n + 1)) :=
    (List.subperm_of_subset hnodup hsubset).perm_of_length_le (by rw [List.length_map])
  have hslots : ∀ i ∈ List.range (n + 1),
      (front ++ c :: back)[i]? = (front ++ back ++ [c])[f i]? := by
    intro i hi
    rw [List.mem_range] at hi
    dsimp only [f]
    split
    · next h =>
        rw [List.getElem?_append_left h, List.append_assoc, List.getElem?_append_left h]
    · split
      · next h h' =>
          rw [h', List.getElem?_append_right (Nat.le_refl _), Nat.sub_self,
            List.getElem?_append_right (by rw [List.length_append]), List.length_append,
            Nat.sub_self]
          rfl
      · next h h' =>
          have hback : i - 1 < (front ++ back).length := by
            rw [List.length_append]
            omega
          rw [List.getElem?_append_right (by omega), List.getElem?_append_left hback,
            List.getElem?_append_right (by omega),
            show i - front.length = i - 1 - front.length + 1 by omega]
          rfl
  have hvalue := value_of_slots hcg (front ++ c :: back) [] (front ++ back ++ [c]) required f
    (List.nodup_range (n := n + 1)) (List.append_ne_nil_of_right_ne_nil _ (List.cons_ne_nil _ _))
    (hlen' ▸ hperm)
    (by rw [List.append_nil]; exact hslots)
    (by
      intro i hi j _ _
      exact .inl (hlen ▸ List.mem_range.mp hi))
  rw [candidateCouplings, List.zipIdx_nil, List.flatMap_nil, List.append_nil, List.length_nil,
    Nat.add_zero, ← hlen] at hvalue
  exact hvalue

/-- So it does not depend on the order of the masks. -/
theorem magnitudeOrZero_perm {masks masks' : List UInt32} (hperm : masks.Perm masks') :
    (magnitudeOrZero cg masks required).toOption =
      (magnitudeOrZero cg masks' required).toOption := by
  have hmasks : ∀ front : List UInt32, (magnitudeOfMasks cg (front ++ masks) required).toOption =
      (magnitudeOfMasks cg (front ++ masks') required).toOption := by
    induction hperm with
    | nil => exact fun _ ↦ rfl
    | @cons c masks masks' _ ih =>
        intro front
        rw [List.append_cons front c masks, List.append_cons front c masks']
        exact ih (front ++ [c])
    | swap c d masks =>
        -- both are `c :: masks` with `d` at the end
        intro front
        rw [magnitudeOfMasks_move hcg front (c :: masks), List.append_cons front c (d :: masks),
          magnitudeOfMasks_move hcg (front ++ [c]) masks, List.append_cons front c masks]
    | trans _ _ ih ih' => exact fun front ↦ (ih front).trans (ih' front)
  cases masks with
  | nil => rw [hperm.nil_eq]
  | cons c masks =>
      cases masks' with
      | nil => exact absurd hperm.length_eq (Nat.succ_ne_zero _)
      | cons c' masks' => exact hmasks []

omit hcg

/-! ## An engine that counts kinds -/

/-- The second slot can stand in for the first one in everything. -/
def StandsIn (couplings : List (Coupling ℚ)) (i j : Nat) : Bool := i = j ∨ (i, j, 1) ∈ couplings

/-- What one member adds: a share of its kind, if nobody of another kind can stand in for it. -/
def share (couplings : List (Coupling ℚ)) (members : List Nat) (i : Nat) : ℚ :=
  if members.any fun j ↦ StandsIn couplings i j && !StandsIn couplings j i then 0
  else 1 / (members.countP fun j ↦ StandsIn couplings i j && StandsIn couplings j i : Nat)

/-- How many kinds of members there are that nobody of another kind can stand in for.  This is
the magnitude where only these couplings matter. -/
def kinds (couplings : List (Coupling ℚ)) (members : List Nat) : ℚ :=
  (members.map (share couplings members)).sum

/-- The engine that counts kinds, with answers for candidates that are too large by some
error. -/
def kindsCatgraph (error : ℚ) : CatgraphMagnitude ℚ where
  CatgraphError := Unit
  CoalitionEvaluator := List (Coupling ℚ) × List Nat
  EvalScratch := Unit
  RoleModulation := Unit
  coalitionValue _ couplings members := .ok (kinds couplings members)
  newEvaluator _ couplings members _ := .ok (couplings, members)
  newScratch := ()
  baseValue evaluator := kinds evaluator.1 evaluator.2
  valueWithScratch evaluator c scratch :=
    (.ok (kinds evaluator.1 (evaluator.2 ++ [c]) + error), scratch)
  modulate couplings _ _ := .ok couplings

section Kinds

variable {f : Nat → Nat} {couplings couplings' : List (Coupling ℚ)} {members members' : List Nat}

theorem standsIn_congr (h : Alike f couplings members couplings' members') {i j : Nat}
    (hi : i ∈ members) (hj : j ∈ members) :
    StandsIn couplings' (f i) (f j) = StandsIn couplings i j := by
  refine decide_eq_decide.mpr ?_
  rw [h.injective.eq_iff hi hj, h.coupled i hi j hj]

theorem share_congr (h : Alike f couplings members couplings' members') {i : Nat}
    (hi : i ∈ members) : share couplings' members' (f i) = share couplings members i := by
  have hany : (members'.any fun j ↦ StandsIn couplings' (f i) j && !StandsIn couplings' j (f i)) =
      members.any fun j ↦ StandsIn couplings i j && !StandsIn couplings j i := by
    rw [Bool.eq_iff_iff, List.any_eq_true, List.any_eq_true]
    constructor
    · rintro ⟨_, hmem, hstands⟩
      obtain ⟨j, hj, rfl⟩ := List.mem_map.mp (h.perm.mem_iff.mpr hmem)
      rw [standsIn_congr h hi hj, standsIn_congr h hj hi] at hstands
      exact ⟨j, hj, hstands⟩
    · rintro ⟨j, hj, hstands⟩
      refine ⟨f j, h.perm.mem_iff.mp (List.mem_map_of_mem hj), ?_⟩
      rwa [standsIn_congr h hi hj, standsIn_congr h hj hi]
  have hcount : (members'.countP fun j ↦
      StandsIn couplings' (f i) j && StandsIn couplings' j (f i)) =
      members.countP fun j ↦ StandsIn couplings i j && StandsIn couplings j i := by
    rw [← h.perm.countP_eq, List.countP_map]
    refine List.countP_congr fun j hj ↦ ?_
    rw [Function.comp_apply, standsIn_congr h hi hj, standsIn_congr h hj hi]
  rw [share, share, hany, hcount]

theorem kinds_congr (h : Alike f couplings members couplings' members') :
    kinds couplings members = kinds couplings' members' := by
  rw [kinds, kinds, ← (h.perm.map _).sum_eq, List.map_map]
  exact congrArg List.sum (List.map_congr_left fun i hi ↦ (share_congr h hi).symm)

/-- The engine that counts kinds can be relied on, if the error is small. -/
theorem exact_kindsCatgraph {error : ℚ} (h : |error| ≤ incrementalRelTol) :
    (kindsCatgraph error).Exact where
  value_congr f agents couplings members agents' couplings' members' _ _ halike :=
    congrArg some (kinds_congr halike)
  new_base agents couplings members _ := rfl
  value_with agents couplings members c evaluator scratch _ hnew _ _ := by
    cases hnew
    refine Option.Rel.some ?_
    rw [Near, add_sub_cancel_left]
    exact h.trans (le_mul_of_one_le_right ((abs_nonneg error).trans h) (le_max_right _ _))

end Kinds

end Koalisi.Decision
