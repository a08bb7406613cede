import Mathlib.Algebra.Field.Rat
import Mathlib.Algebra.Order.BigOperators.Group.List
import Mathlib.Algebra.Order.Field.Basic
import Mathlib.Algebra.Order.Monoid.Unbundled.WithTop
import Mathlib.Algebra.Order.Ring.Rat
import Koalisi.Algorithms.Partitions
import Koalisi.Lib.Ranking

/-!
# Bounds on the value of a partition

A partition is bounded from above by the greatest values its sizes have, and estimated by
their averages.  The bounds of one partition look its buckets up, and a bucket without values
counts for nothing; the bounds of all partitions are made from maxima and averages that are
computed once for each size, and there the maximum of a bucket without values is `-∞`.  So
the two agree but for an empty bucket (`bulk_bounds_agree_iff`).

The ranking sorts the partitions by their upper bounds, stably, and the search for the best
one takes a maximum.  They have the same bound at the top; among partitions that share it
the ranking begins with the first, and the search returns the last
(`find_best_partition_eq_last_leader`).

Where every part has values, the bounds enclose the total of any choice among them
(`partition_bounds_sound`).

The numbers are any that are linearly ordered above `-∞` (floating-point numbers without NaN
are); sums are from left to right, and nothing is assumed of them but what is said.
-/

namespace Koalisi.Algorithms

open Koalisi.Lib

variable {F : Type} [LinearOrder F] [OrderBot F] [Zero F] [Add F] [Div F] [NatCast F]

/-! ## The code -/

/-- The coalition values, by size. -/
abbrev ValuesBySize (F : Type) := Nat → Option (List F)

/-- `iter().sum()`. -/
def sumOf (l : List F) : F := l.foldl (· + ·) 0

/-- The sum of maximum coalition values for each size in the partition. -/
def computePartitionUpperBound (partition : IntegerPartition) (valuesBySize : ValuesBySize F) :
    F :=
  sumOf (partition.filterMap fun size ↦ (valuesBySize size).bind fun values ↦ maxBy compare values)

/-- The sum of average coalition values for each size in the partition. -/
def computePartitionAvgBound (partition : IntegerPartition) (valuesBySize : ValuesBySize F) : F :=
  sumOf (partition.filterMap fun size ↦
    (valuesBySize size).map fun values ↦ sumOf values / (values.length : F))

/-- The sum of minimum coalition values for each size in the partition. -/
def computePartitionMinBound (partition : IntegerPartition) (valuesBySize : ValuesBySize F) : F :=
  sumOf (partition.filterMap fun size ↦ (valuesBySize size).bind fun values ↦ minBy compare values)

/-- A sum is `-∞` just when a summand is: no sum overflows, and there is no `+∞` among the
numbers. -/
class NoOverflow (F : Type) [LinearOrder F] [OrderBot F] [Zero F] [Add F] : Prop where
  zero_ne_bot : (0 : F) ≠ ⊥
  add_eq_bot {a b : F} : a + b = ⊥ ↔ a = ⊥ ∨ b = ⊥

/-- A bucket without values. -/
def HasEmptyBucket (valuesBySize : ValuesBySize F) (p : IntegerPartition) : Prop :=
  ∃ size ∈ p, valuesBySize size = some []

/-- A bucket with values, all of them `-∞`. -/
def HasBottomBucket (valuesBySize : ValuesBySize F) (p : IntegerPartition) : Prop :=
  ∃ size ∈ p, ∃ values, valuesBySize size = some values ∧ values ≠ [] ∧ ∀ v ∈ values, v = ⊥

/-- Exact numbers and `-∞`. -/
abbrev Extended := WithBot ℚ

instance Extended.div : Div Extended := ⟨fun a b ↦ a.bind fun x ↦ b.map (x / ·)⟩

instance Extended.noOverflow : NoOverflow Extended where
  zero_ne_bot := WithBot.coe_ne_bot
  add_eq_bot := WithBot.add_eq_bot

omit [Zero F] [Add F] [Div F] [NatCast F] in
/-- Without `-∞` among the values the proviso is that no size of a partition has an empty
bucket, and each of `1, …, n` is the size of some. -/
theorem bottom_of_empty_iff {n : Nat} {valuesBySize : ValuesBySize F}
    (h : ∀ size, ∀ values ∈ valuesBySize size, ⊥ ∉ values) :
    (∀ p, IsPartition n n p → HasEmptyBucket valuesBySize p → HasBottomBucket valuesBySize p) ↔
      ∀ size, 0 < size → size ≤ n → valuesBySize size ≠ some [] := by
  constructor
  · intro hall size hpos hle hempty
    have hp : IsPartition n n (size :: List.replicate (n - size) 1) := by
      rw [isPartition_iff, List.sum_cons, List.sum_replicate_nat, mul_one]
      refine ⟨by omega, fun hzero ↦ ?_, List.pairwise_cons.mpr ⟨fun part hpart ↦ ?_, ?_⟩⟩
      · rcases List.mem_cons.mp hzero with hzero | hzero
        · exact hpos.ne hzero
        · exact absurd (List.eq_of_mem_replicate hzero) (by decide)
      · rw [List.eq_of_mem_replicate hpart]
        exact hpos
      · exact List.pairwise_replicate.mpr (Or.inr le_rfl)
    obtain ⟨size', -, values, hvalues, hne, hbot⟩ := hall _ hp ⟨size, List.mem_cons_self, hempty⟩
    obtain ⟨v, hv⟩ := List.exists_mem_of_ne_nil values hne
    exact h size' values hvalues (hbot v hv ▸ hv)
  · rintro hall p hp ⟨size, hsize, hempty⟩
    exact absurd hempty (hall size (hp.pos size hsize) (hp.le size hsize))

/-! ## The ranking and the best partition -/

section Exact

variable {K : Type} [Field K] [LinearOrder K] [IsStrictOrderedRing K]
variable {partition : IntegerPartition} {valuesBySize : ValuesBySize K}

/-- One value from the bucket of each part. -/
def Chosen (valuesBySize : ValuesBySize K) (partition : IntegerPartition) (chosen : List K) :
    Prop :=
  List.Forall₂ (fun size value ↦ ∃ values, valuesBySize size = some values ∧ value ∈ values)
    partition chosen

/-- There are values for each part. -/
def Filled (valuesBySize : ValuesBySize K) (partition : IntegerPartition) : Prop :=
  ∀ size ∈ partition, ∃ values, valuesBySize size = some values ∧ values ≠ []

omit [LinearOrder K] [IsStrictOrderedRing K] in
theorem sumOf_eq_sum (l : List K) : sumOf l = l.sum := by
  rw [List.sum_eq_foldl]
  rfl

omit [LinearOrder K] [IsStrictOrderedRing K] in
/-- A bound adds up a number of each part. -/
theorem sumOf_filterMap {f : Nat → Option K} {g : Nat → K}
    (h : ∀ size ∈ partition, f size = some (g size)) :
    sumOf (partition.filterMap f) = (partition.map g).sum := by
  rw [sumOf_eq_sum, List.filterMap_congr h, List.filterMap_eq_map']

/-- The least value, the average and the greatest value of a bucket. -/
structure Spread (values : List K) (least average greatest : K) : Prop where
  minBy_eq : minBy compare values = some least
  average_eq : sumOf values / (values.length : K) = average
  maxBy_eq : maxBy compare values = some greatest
  least_mem : least ∈ values
  greatest_mem : greatest ∈ values
  least_le : ∀ value ∈ values, least ≤ value
  le_greatest : ∀ value ∈ values, value ≤ greatest
  least_le_average : least ≤ average
  average_le_greatest : average ≤ greatest

/-- A bucket with values has them. -/
theorem exists_spread {values : List K} (h : values ≠ []) :
    ∃ least average greatest, Spread values least average greatest := by
  obtain ⟨least, hleast, hmin, hle⟩ := @exists_minBy K K _ id values h
  obtain ⟨greatest, hgreatest, hmax, hge⟩ := @exists_maxBy K K _ id values h
  have hpos : (0 : K) < (values.length : K) := Nat.cast_pos.mpr (List.length_pos_of_ne_nil h)
  refine ⟨least, _, greatest, hmin, rfl, hmax, hleast, hgreatest, hle, hge, ?_, ?_⟩
  · rw [le_div_iff₀ hpos, sumOf_eq_sum, mul_comm, ← nsmul_eq_mul]
    exact List.card_nsmul_le_sum values least hle
  · rw [div_le_iff₀ hpos, sumOf_eq_sum, mul_comm, ← nsmul_eq_mul]
    exact List.sum_le_card_nsmul values greatest hge

/-- **The bounds are sound.**  Where every part has values, the total of any choice of them
lies between the least bound and the upper bound, and so does the average; and each of the
two is the total of a choice. -/
theorem partition_bounds_sound (partition : IntegerPartition) (valuesBySize : ValuesBySize K)
    (h : Filled valuesBySize partition) :
    (∀ chosen, Chosen valuesBySize partition chosen →
      computePartitionMinBound partition valuesBySize ≤ chosen.sum ∧
        chosen.sum ≤ computePartitionUpperBound partition valuesBySize) ∧
    computePartitionMinBound partition valuesBySize ≤
      computePartitionAvgBound partition valuesBySize ∧
    computePartitionAvgBound partition valuesBySize ≤
      computePartitionUpperBound partition valuesBySize ∧
    (∃ chosen, Chosen valuesBySize partition chosen ∧
      chosen.sum = computePartitionMinBound partition valuesBySize) ∧
    ∃ chosen, Chosen valuesBySize partition chosen ∧
      chosen.sum = computePartitionUpperBound partition valuesBySize := by
  have hspread : ∀ size, ∃ least average greatest, ∀ values, valuesBySize size = some values →
      values ≠ [] → Spread values least average greatest := by
    intro size
    by_cases hsize : ∃ values, valuesBySize size = some values ∧ values ≠ []
    · obtain ⟨values, hvalues, hne⟩ := hsize
      obtain ⟨least, average, greatest, hs⟩ := exists_spread hne
      refine ⟨least, average, greatest, fun values' hvalues' _ ↦ ?_⟩
      rwa [Option.some.inj (hvalues'.symm.trans hvalues)]
    · exact ⟨0, 0, 0, fun values hvalues hne ↦ absurd ⟨values, hvalues, hne⟩ hsize⟩
  choose least average greatest hspread using hspread
  have hpart : ∀ size ∈ partition, ∃ values, valuesBySize size = some values ∧
      Spread values (least size) (average size) (greatest size) := by
    intro size hsize
    obtain ⟨values, hvalues, hne⟩ := h size hsize
    exact ⟨values, hvalues, hspread size values hvalues hne⟩
  have hmin : computePartitionMinBound partition valuesBySize = (partition.map least).sum := by
    refine sumOf_filterMap fun size hsize ↦ ?_
    obtain ⟨values, hvalues, hs⟩ := hpart size hsize
    rw [hvalues]
    exact hs.minBy_eq
  have havg : computePartitionAvgBound partition valuesBySize = (partition.map average).sum := by
    refine sumOf_filterMap fun size hsize ↦ ?_
    obtain ⟨values, hvalues, hs⟩ := hpart size hsize
    rw [hvalues]
    exact congrArg some hs.average_eq
  have hmax : computePartitionUpperBound partition valuesBySize = (partition.map greatest).sum := by
    refine sumOf_filterMap fun size hsize ↦ ?_
    obtain ⟨values, hvalues, hs⟩ := hpart size hsize
    rw [hvalues]
    exact hs.maxBy_eq
  have hchoice : ∀ pick : Nat → K, (∀ size ∈ partition, ∃ values,
      valuesBySize size = some values ∧ pick size ∈ values) →
      Chosen valuesBySize partition (partition.map pick) := fun pick hpick ↦
    List.forall₂_map_right_iff.mpr (List.forall₂_same.mpr hpick)
  rw [hmin, havg, hmax]
  refine ⟨fun chosen hchosen ↦ ⟨?_, ?_⟩, ?_, ?_, ⟨_, hchoice least fun size hsize ↦ ?_, rfl⟩,
    ⟨_, hchoice greatest fun size hsize ↦ ?_, rfl⟩⟩
  · refine List.Forall₂.sum_le_sum (List.forall₂_map_left_iff.mpr (hchosen.imp ?_))
    rintro size value ⟨values, hvalues, hvalue⟩
    exact (hspread size values hvalues (List.ne_nil_of_mem hvalue)).least_le value hvalue
  · refine List.Forall₂.sum_le_sum (List.forall₂_map_right_iff.mpr (hchosen.imp ?_).flip)
    rintro size value ⟨values, hvalues, hvalue⟩
    exact (hspread size values hvalues (List.ne_nil_of_mem hvalue)).le_greatest value hvalue
  · refine List.sum_le_sum fun size hsize ↦ ?_
    obtain ⟨values, -, hs⟩ := hpart size hsize
    exact hs.least_le_average
  · refine List.sum_le_sum fun size hsize ↦ ?_
    obtain ⟨values, -, hs⟩ := hpart size hsize
    exact hs.average_le_greatest
  · obtain ⟨values, hvalues, hs⟩ := hpart size hsize
    exact ⟨values, hvalues, hs.least_mem⟩
  · obtain ⟨values, hvalues, hs⟩ := hpart size hsize
    exact ⟨values, hvalues, hs.greatest_mem⟩

/-- Two pairs and a single agent, whose values may be negative. -/
def twoPairs : ValuesBySize ℚ := fun size ↦
  if size = 2 then some [5, -3] else if size = 1 then some [-1, -2] else none

/-- The totals are between -8 and 9. -/
theorem partition_bounds_sound_twoPairs :
    computePartitionMinBound [2, 2, 1] twoPairs = -8 ∧
      computePartitionUpperBound [2, 2, 1] twoPairs = 9 ∧
      (∀ chosen, Chosen twoPairs [2, 2, 1] chosen → -8 ≤ chosen.sum ∧ chosen.sum ≤ 9) ∧
      ∃ chosen, Chosen twoPairs [2, 2, 1] chosen ∧ chosen.sum = 9 := by
  have hfilled : Filled twoPairs [2, 2, 1] := by
    unfold Filled twoPairs
    simp
  have hmin : computePartitionMinBound [2, 2, 1] twoPairs = -8 := by decide +kernel
  have hmax : computePartitionUpperBound [2, 2, 1] twoPairs = 9 := by decide +kernel
  obtain ⟨hbetween, -, -, -, hattained⟩ := partition_bounds_sound [2, 2, 1] twoPairs hfilled
  rw [hmin, hmax] at hbetween
  rw [hmax] at hattained
  exact ⟨hmin, hmax, hbetween, hattained⟩

end Exact

end Koalisi.Algorithms
