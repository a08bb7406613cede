import Mathlib.Algebra.GroupWithZero.Nat
import Mathlib.Data.List.Basic

/-!
# Integer partitions

The shapes a set of `n` agents can be cut into: lists of block sizes, largest first, that
add up to `n`.
-/

namespace Koalisi.Algorithms

/-- Block sizes. -/
abbrev IntegerPartition := List Nat

/-- The partitions of `n` with parts of at most `maxValue`, each behind `current`. -/
def generatePartitionsRecursive (n maxValue : Nat) (current : List Nat) : List IntegerPartition :=
  if n = 0 then [current]
  else (List.range (min maxValue n)).reverse.flatMap fun i ↦
    generatePartitionsRecursive (n - (i + 1)) (i + 1) (current ++ [i + 1])
termination_by n

/-- All integer partitions of `n`. -/
def generateIntegerPartitions (n : Nat) : List IntegerPartition :=
  if n = 0 then [[]] else generatePartitionsRecursive n n []

theorem sum_of_mem_generatePartitionsRecursive {n maxValue : Nat} {current p : List Nat}
    (h : p ∈ generatePartitionsRecursive n maxValue current) : p.sum = current.sum + n := by
  induction n, maxValue, current using generatePartitionsRecursive.induct with
  | case1 maxValue current =>
      rw [generatePartitionsRecursive, if_pos rfl, List.mem_singleton] at h
      rw [h, Nat.add_zero]
  | case2 n maxValue current hn ih =>
      rw [generatePartitionsRecursive, if_neg hn] at h
      obtain ⟨i, hi, hp⟩ := List.mem_flatMap.mp h
      rw [List.mem_reverse, List.mem_range] at hi
      have hsum := ih i hp
      rw [List.sum_append, List.sum_singleton] at hsum
      omega

/-- The shapes of `n` agents have room for `n` agents. -/
theorem sum_of_mem_generateIntegerPartitions {n : Nat} {p : List Nat}
    (h : p ∈ generateIntegerPartitions n) : p.sum = n := by
  unfold generateIntegerPartitions at h
  split at h
  · rename_i hn
    rw [List.mem_singleton.mp h, hn]
    rfl
  · rw [sum_of_mem_generatePartitionsRecursive h, List.sum_nil, Nat.zero_add]

/-- The largest part allowed, and the rest in any way, is one of the partitions. -/
theorem generatePartitionsRecursive_ne_nil {n maxValue : Nat} {current : List Nat}
    (h : n = 0 ∨ 0 < maxValue) : generatePartitionsRecursive n maxValue current ≠ [] := by
  induction n, maxValue, current using generatePartitionsRecursive.induct with
  | case1 maxValue current =>
      rw [generatePartitionsRecursive, if_pos rfl]
      exact List.cons_ne_nil _ _
  | case2 n maxValue current hn ih =>
      rw [generatePartitionsRecursive, if_neg hn]
      have hzero : 0 ∈ (List.range (min maxValue n)).reverse := by
        rw [List.mem_reverse, List.mem_range]
        omega
      intro hnil
      exact ih 0 (Or.inr Nat.one_pos) (List.flatMap_eq_nil_iff.mp hnil 0 hzero)

theorem generateIntegerPartitions_ne_nil (n : Nat) : generateIntegerPartitions n ≠ [] := by
  unfold generateIntegerPartitions
  split
  · exact List.cons_ne_nil _ _
  · rename_i hn
    exact generatePartitionsRecursive_ne_nil (Or.inr (Nat.pos_of_ne_zero hn))

end Koalisi.Algorithms
