import Mathlib.Data.List.NodupEquivFin
import Mathlib.Data.List.Pairwise
import Koalisi.Lib.Closure
import Koalisi.Lib.Weights

/-!
# Diversity

How diverse some points are that stand in for each other: close their strengths under
composition, merge the points that stand in for each other fully, and sum up the entries of
the inverse of what is left.  It does not matter which point of a class is kept, nor what
the points are called (`inverseSum_representatives`).

Where points stand in for each other fully only if they are equal, there is nothing to merge,
and the diversity is that of a finite set.  Sets with nothing between them add up
(`diversity_union`).  More points add what they add of their own, less what the detours that
lead through them take away (`diversity_gain`); and where a point of the set can represent each
of the new ones, they take away what they shorten (`diversity_loss`).
-/

namespace Koalisi.Lib

open Matrix

variable {α β ι K : Type} [Field K] [LinearOrder K]

/-! ## Classes -/

/-- Each of the two points stands in for the other one fully. -/
def Mutual (z : α → α → K) (a b : α) : Prop := z a b = 1 ∧ z b a = 1

omit [LinearOrder K] in
theorem Mutual.symm {z : α → α → K} {a b : α} (h : Mutual z a b) : Mutual z b a := ⟨h.2, h.1⟩

/-- One point of each class. -/
structure Representatives (z : α → α → K) (l reps : List α) : Prop where
  subset : reps ⊆ l
  distinct : reps.Pairwise fun a b ↦ ¬Mutual z a b
  cover : ∀ a ∈ l, ∃ b ∈ reps, Mutual z a b

instance [DecidableEq K] (z : α → α → K) (a b : α) : Decidable (Mutual z a b) :=
  inferInstanceAs (Decidable (_ ∧ _))

/-- The strengths between the points of a list. -/
def tableOf (z : α → α → K) (l : List α) : Matrix (Fin l.length) (Fin l.length) K :=
  .of fun i j ↦ z (l.get i) (l.get j)

/-- Strengths that are closed at the points of a list. -/
structure ClosedOn (z : α → α → K) (l : List α) : Prop where
  strengths : Strengths z
  trans : ∀ c ∈ l, ∀ a b, z a c * z c b ≤ z a b

section Classes

variable {s z : α → α → K} {z' : β → β → K} {l reps : List α}
  {l' reps' : List β} {a b c : α}

theorem closedOn_closeThrough [IsStrictOrderedRing K] (h : Strengths s) (l : List α) :
    ClosedOn (closeThrough s l) l where
  strengths := h.closeThrough l
  trans _ hc a b := closeThrough_trans h hc a b

/-- Points of one class see the others in the same way. -/
theorem ClosedOn.eq_of_mutual (h : ClosedOn z l) (ha : a ∈ l) (hb : b ∈ l) (hab : Mutual z a b)
    (c : α) : z a c = z b c ∧ z c a = z c b := by
  constructor
  · refine le_antisymm ?_ ?_
    · simpa [hab.2] using h.trans a ha b c
    · simpa [hab.1] using h.trans b hb a c
  · refine le_antisymm ?_ ?_
    · simpa [hab.1] using h.trans a ha c b
    · simpa [hab.2] using h.trans b hb c a

theorem ClosedOn.mutual_trans (h : ClosedOn z l) (hb : b ∈ l) (hab : Mutual z a b)
    (hbc : Mutual z b c) : Mutual z a c := by
  constructor
  · refine le_antisymm (h.strengths.le_one a c) ?_
    simpa [hab.1, hbc.1] using h.trans b hb a c
  · refine le_antisymm (h.strengths.le_one c a) ?_
    simpa [hab.2, hbc.2] using h.trans b hb c a

omit [LinearOrder K] in
/-- Different representatives are of different classes. -/
theorem Representatives.eq_of_mutual (h : Representatives z l reps) {i j : Fin reps.length}
    (hij : Mutual z (reps.get i) (reps.get j)) : i = j := by
  rcases lt_trichotomy i j with hlt | heq | hgt
  · exact absurd hij (List.pairwise_iff_get.mp h.distinct i j hlt)
  · exact heq
  · exact absurd hij.symm (List.pairwise_iff_get.mp h.distinct j i hgt)

/-- Keep a point unless one that is kept is of its class. -/
theorem representatives_pwFilter (hself : ∀ a ∈ l, z a a = 1) :
    Representatives z l (l.pwFilter fun a b ↦ ¬Mutual z a b) := by
  refine ⟨List.pwFilter_subset l, List.pairwise_pwFilter l, ?_⟩
  induction l with
  | nil => exact fun a ha ↦ absurd ha List.not_mem_nil
  | cons c l ih =>
      have hrest := ih fun a ha ↦ hself a (List.mem_cons_of_mem c ha)
      intro a ha
      by_cases hkeep : ∀ b ∈ l.pwFilter fun a b ↦ ¬Mutual z a b, ¬Mutual z c b
      · rw [List.pwFilter_cons_of_pos hkeep]
        rcases List.mem_cons.mp ha with rfl | ha
        · exact ⟨a, List.mem_cons_self, hself a List.mem_cons_self, hself a List.mem_cons_self⟩
        · obtain ⟨b, hb, hab⟩ := hrest a ha
          exact ⟨b, List.mem_cons_of_mem c hb, hab⟩
      · rw [List.pwFilter_cons_of_neg hkeep]
        rcases List.mem_cons.mp ha with rfl | ha
        · push Not at hkeep
          exact hkeep
        · exact hrest a ha

/-- Whichever points are kept, and whatever they are called. -/
theorem inverseSum_representatives (hz' : ClosedOn z' l') (f : α → β)
    (hf : ∀ a ∈ l, ∀ b ∈ l, z' (f a) (f b) = z a b) (hmem : ∀ b, b ∈ l' ↔ ∃ a ∈ l, f a = b)
    (h : Representatives z l reps) (h' : Representatives z' l' reps') :
    inverseSum (tableOf z reps) = inverseSum (tableOf z' reps') := by
  have hrep : ∀ i : Fin reps.length, reps.get i ∈ l := fun i ↦ h.subset (List.get_mem _ _)
  have hrep' : ∀ k : Fin reps'.length, reps'.get k ∈ l' := fun k ↦ h'.subset (List.get_mem _ _)
  have hfl : ∀ a ∈ l, f a ∈ l' := fun a ha ↦ (hmem _).mpr ⟨a, ha, rfl⟩
  -- every class of the one list is that of a representative of the other
  have hclass : ∀ i : Fin reps.length,
      ∃ k : Fin reps'.length, Mutual z' (f (reps.get i)) (reps'.get k) := by
    intro i
    obtain ⟨b, hb, hmutual⟩ := h'.cover _ (hfl _ (hrep i))
    obtain ⟨k, rfl⟩ := List.get_of_mem hb
    exact ⟨k, hmutual⟩
  choose σ hσ using hclass
  have hinjective : Function.Injective σ := by
    intro i j hij
    have hsame := hz'.mutual_trans (hrep' (σ i)) (hσ i) (hij ▸ (hσ j).symm)
    refine h.eq_of_mutual ⟨?_, ?_⟩
    · rw [← hf _ (hrep i) _ (hrep j)]
      exact hsame.1
    · rw [← hf _ (hrep j) _ (hrep i)]
      exact hsame.2
  have hsurjective : Function.Surjective σ := by
    intro k
    obtain ⟨a, ha, hfa⟩ := (hmem _).mp (hrep' k)
    obtain ⟨b, hb, hmutual⟩ := h.cover a ha
    obtain ⟨i, rfl⟩ := List.get_of_mem hb
    refine ⟨i, h'.eq_of_mutual (hz'.mutual_trans (hfl _ (hrep i)) (hσ i).symm ?_)⟩
    rw [← hfa, Mutual, hf _ (hrep i) _ ha, hf _ ha _ (hrep i)]
    exact hmutual.symm
  have htable : tableOf z reps = (tableOf z' reps').submatrix
      (Equiv.ofBijective σ ⟨hinjective, hsurjective⟩)
      (Equiv.ofBijective σ ⟨hinjective, hsurjective⟩) := by
    ext i j
    have hi := hz'.eq_of_mutual (hfl _ (hrep i)) (hrep' (σ i)) (hσ i)
    have hj := hz'.eq_of_mutual (hfl _ (hrep j)) (hrep' (σ j)) (hσ j)
    change z (reps.get i) (reps.get j) = z' (reps'.get (σ i)) (reps'.get (σ j))
    rw [← hf _ (hrep i) _ (hrep j), (hi _).1, (hj _).2]
  rw [htable, inverseSum_submatrix]

end Classes

/-! ## Finite sets -/

section Sets

variable (s : α → α → K) (M S T : Finset α)

/-- The strengths of the ways through a set. -/
noncomputable def bestWithin : α → α → K := closeThrough s M.toList

/-- The strengths of the ways between the points of a set. -/
noncomputable def table : Matrix M M K := .of fun a b ↦ bestWithin s M a b

variable [DecidableEq α]

/-- How diverse a set is, if it can be said. -/
noncomputable def diversity : Option K := inverseSum (table s M)

/-- What a point counts for in the rows. -/
noncomputable def weight (b : α) : K := if h : b ∈ M then weights (table s M) ⟨b, h⟩ else 0

/-- What a point counts for in the columns. -/
noncomputable def coweight (a : α) : K := if h : a ∈ M then coweights (table s M) ⟨a, h⟩ else 0

/-- What the points that are new in the larger set add of their own: their coweights, as far as
what they see of the smaller set does not add up to one. -/
noncomputable def own : K :=
  ∑ a ∈ T \ S, coweight s T a * (1 - ∑ b ∈ S, bestWithin s T a b * weight s S b)

/-- What is lost to the ways between the points of the smaller set that lead through new ones. -/
noncomputable def detours : K :=
  ∑ a ∈ S, ∑ b ∈ S, coweight s T a * (bestWithin s T a b - bestWithin s S a b) * weight s S b

variable {s M S T} {m m' : K}

theorem sum_bestWithin_mul_weight (h : diversity s M = some m) {a : α} (ha : a ∈ M) :
    ∑ b ∈ M, bestWithin s M a b * weight s M b = 1 := by
  rw [← sum_mul_weights h ⟨a, ha⟩, ← Finset.sum_coe_sort]
  refine Finset.sum_congr rfl fun b _ ↦ ?_
  rw [weight, dif_pos b.2]
  rfl

theorem sum_coweight_mul_bestWithin (h : diversity s M = some m) {b : α} (hb : b ∈ M) :
    ∑ a ∈ M, coweight s M a * bestWithin s M a b = 1 := by
  rw [← sum_coweights_mul h ⟨b, hb⟩, ← Finset.sum_coe_sort]
  refine Finset.sum_congr rfl fun a _ ↦ ?_
  rw [coweight, dif_pos a.2]
  rfl

theorem sum_weight (h : diversity s M = some m) : ∑ b ∈ M, weight s M b = m := by
  rw [← sum_weights h, ← Finset.sum_coe_sort]
  refine Finset.sum_congr rfl fun b _ ↦ ?_
  rw [weight, dif_pos b.2]

theorem sum_coweight (h : diversity s M = some m) : ∑ a ∈ M, coweight s M a = m := by
  rw [← sum_coweights h, ← Finset.sum_coe_sort]
  refine Finset.sum_congr rfl fun a _ ↦ ?_
  rw [coweight, dif_pos a.2]

/-- There is no diversity without points. -/
theorem diversity_empty (s : α → α → K) : diversity s ∅ = some 0 := by
  rw [diversity, inverseSum_eq_some, Matrix.det_isEmpty]
  exact ⟨isUnit_one, Finset.sum_of_isEmpty _⟩

/-- What a larger set has more. -/
theorem diversity_gain (hsub : S ⊆ T) (hS : diversity s S = some m)
    (hT : diversity s T = some m') : m' - m = own s S T - detours s S T := by
  rw [← sum_weight hS, ← sum_coweight hT]
  exact gain_eq hsub (fun a ha ↦ sum_bestWithin_mul_weight hS ha)
    (fun b hb ↦ sum_coweight_mul_bestWithin hT hb)

variable [IsStrictOrderedRing K]

omit [DecidableEq α] in
/-- The set may be listed in any order. -/
theorem bestWithin_eq_closeThrough (h : Strengths s) {l : List α} (hl : ∀ a, a ∈ l ↔ a ∈ M) :
    bestWithin s M = closeThrough s l :=
  closeThrough_congr h fun c ↦ Finset.mem_toList.trans (hl c).symm

theorem diversity_eq_of_list (h : Strengths s) {l : List α} (hnodup : l.Nodup)
    (hl : ∀ a, a ∈ l ↔ a ∈ M) : diversity s M = inverseSum (tableOf (closeThrough s l) l) := by
  have htable : tableOf (closeThrough s l) l =
      (table s M).submatrix ((hnodup.getEquiv l).trans (Equiv.subtypeEquivRight hl))
        ((hnodup.getEquiv l).trans (Equiv.subtypeEquivRight hl)) := by
    ext i j
    change closeThrough s l (l.get i) (l.get j) = bestWithin s M (l.get i) (l.get j)
    rw [bestWithin_eq_closeThrough h hl]
  rw [htable, inverseSum_submatrix, diversity]

/-- Points that can be told apart, and under other names perhaps not. -/
theorem diversity_of_representatives (h : Strengths s)
    (hself : ∀ a ∈ M, s a a = 1) (hfull : ∀ a b c, s a c = 1 → s c b = 1 → s a b = 1)
    (hantisymm : ∀ a ∈ M, ∀ b ∈ M, s a b = 1 → s b a = 1 → a = b) {s' : ι → ι → K}
    {l reps : List ι} (f : ι → α)
    (hf : ∀ i ∈ l, ∀ j ∈ l, s' i j = s (f i) (f j)) (hmem : ∀ a, a ∈ M ↔ ∃ i ∈ l, f i = a)
    (hreps : Representatives (closeThrough s' l) l reps) :
    inverseSum (tableOf (closeThrough s' l) reps) = diversity s M := by
  have hlist : ∀ a, a ∈ M.toList ↔ a ∈ M := fun a ↦ Finset.mem_toList
  rw [diversity_eq_of_list h M.nodup_toList hlist]
  refine inverseSum_representatives (closedOn_closeThrough h M.toList) f (fun i hi j hj ↦ ?_)
    (fun a ↦ (hlist a).trans (hmem a)) hreps ⟨fun _ ↦ id, ?_, ?_⟩
  · rw [closeThrough_congr_on (p := fun i ↦ i ∈ l) (fun _ ↦ id)
      (fun i j hi hj ↦ hf i hi j hj) hi hj, closeThrough_map f s l i j]
    refine congrFun (congrFun (closeThrough_congr h fun a ↦ ?_) _) _
    rw [hlist, hmem, List.mem_map]
  · refine M.nodup_toList.imp_of_mem fun {a b} ha hb hne hmutual ↦ hne ?_
    exact hantisymm a ((hlist a).mp ha) b ((hlist b).mp hb)
      ((closeThrough_eq_one h hfull).mp hmutual.1) ((closeThrough_eq_one h hfull).mp hmutual.2)
  · intro a ha
    have hone := (closeThrough_eq_one (l := M.toList) h hfull).mpr (hself a ((hlist a).mp ha))
    exact ⟨a, ha, hone, hone⟩

/-- Sets with nothing between them add up. -/
theorem diversity_union (h : Strengths s) (hdisjoint : Disjoint S T)
    (hapart : ∀ a ∈ S, ∀ b ∈ T, s a b = 0 ∧ s b a = 0) :
    diversity s (S ∪ T) = (diversity s S).bind fun m ↦ (diversity s T).map fun m' ↦ m + m' := by
  have hlist : ∀ c ∈ (S ∪ T).toList, c ∈ S ∪ T := fun c hc ↦ Finset.mem_toList.mp hc
  have hout : ∀ a ∈ S ∪ T, a ∉ S → a ∈ T := fun a ha haS ↦
    (Finset.mem_union.mp ha).resolve_left haS
  have hin : ∀ a ∈ T, a ∉ S := fun a ha haS ↦ Finset.disjoint_left.mp hdisjoint haS ha
  have hzero : ∀ a b, a ∈ S ∪ T → b ∈ S ∪ T → (a ∈ S ↔ ¬b ∈ S) → s a b = 0 := by
    intro a b ha hb hab
    by_cases haS : a ∈ S
    · exact (hapart a haS b (hout b hb (hab.mp haS))).1
    · exact (hapart b (not_not.mp fun hbS ↦ haS (hab.mpr hbS)) a (hout a ha haS)).2
  have hone : ∀ a ∈ S, ∀ b ∈ S, bestWithin s (S ∪ T) a b = bestWithin s S a b := by
    intro a ha b hb
    rw [bestWithin, closeThrough_part hlist hzero h (Finset.mem_union_left T ha)
      (Finset.mem_union_left T hb) ha hb, bestWithin_eq_closeThrough h fun c ↦ ?_]
    rw [List.mem_filter, Finset.mem_toList, decide_eq_true_eq]
    exact and_iff_right_of_imp fun hc ↦ Finset.mem_union_left T hc
  have hother : ∀ a ∈ T, ∀ b ∈ T, bestWithin s (S ∪ T) a b = bestWithin s T a b := by
    intro a ha b hb
    have hzero' : ∀ a b, a ∈ S ∪ T → b ∈ S ∪ T → (a ∉ S ↔ ¬b ∉ S) → s a b = 0 :=
      fun a b ha hb hab ↦ hzero a b ha hb (by tauto)
    rw [bestWithin, closeThrough_part (p := fun c ↦ c ∉ S) hlist hzero' h
      (Finset.mem_union_right S ha) (Finset.mem_union_right S hb) (hin a ha) (hin b hb),
      bestWithin_eq_closeThrough h fun c ↦ ?_]
    rw [List.mem_filter, Finset.mem_toList, decide_eq_true_eq]
    exact ⟨fun hc ↦ hout c hc.1 hc.2, fun hc ↦ ⟨Finset.mem_union_right S hc, hin c hc⟩⟩
  have hcross : ∀ a ∈ S, ∀ b ∈ T, bestWithin s (S ∪ T) a b = 0 ∧ bestWithin s (S ∪ T) b a = 0 := by
    intro a ha b hb
    have ha' := Finset.mem_union_left T ha
    have hb' := Finset.mem_union_right S hb
    constructor
    · exact closeThrough_apart hlist hzero ha' hb' ⟨fun _ ↦ hin b hb, fun _ ↦ ha⟩
    · refine closeThrough_apart hlist hzero hb' ha' ⟨fun hbS ↦ absurd hbS (hin b hb), ?_⟩
      exact fun hna ↦ absurd ha hna
  have htable : (table s (S ∪ T)).submatrix (Equiv.Finset.union S T hdisjoint)
      (Equiv.Finset.union S T hdisjoint) = fromBlocks (table s S) 0 0 (table s T) := by
    ext i j
    rcases i with ⟨a, ha⟩ | ⟨a, ha⟩
    · rcases j with ⟨b, hb⟩ | ⟨b, hb⟩
      · exact hone a ha b hb
      · exact (hcross a ha b hb).1
    · rcases j with ⟨b, hb⟩ | ⟨b, hb⟩
      · exact (hcross b hb a ha).2
      · exact hother a ha b hb
  rw [diversity, ← inverseSum_submatrix _ (Equiv.Finset.union S T hdisjoint), htable,
    inverseSum_fromBlocks]
  rfl

end Sets

end Koalisi.Lib
