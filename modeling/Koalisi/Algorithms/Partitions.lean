import Mathlib.Algebra.Order.BigOperators.Group.List
import Mathlib.Algebra.Order.Group.Nat
import Mathlib.Data.List.Chain
import Mathlib.Data.List.GetD
import Mathlib.Data.List.Nodup
import Koalisi.Algorithms.Aipa

/-!
# Counting and checking integer partitions

The enumeration lists every integer partition of `n` once: the largest part decides which
of its branches a partition comes from, and what is left is a partition of a smaller number
into parts that are not larger.  Counting the branches in the same way gives the recurrence
that the table of `partition_count` is filled by, one pass for every part size.

Sizes are machine words, and an addition that overflows does not return.
-/

namespace Koalisi.Algorithms

/-! ## Words -/

/-- One more than the largest `usize`. -/
def wordBound : Nat := 2 ^ 64

/-- An addition of two words, if it does not overflow. -/
def checkedAdd (a b : Nat) : Option Nat := if a + b < wordBound then some (a + b) else none

/-- The sum of a list of words. -/
def checkedSum (l : List Nat) : Option Nat := l.foldlM checkedAdd 0

theorem checkedAdd_eq_some {a b c : Nat} :
    checkedAdd a b = some c ↔ c = a + b ∧ a + b < wordBound := by
  unfold checkedAdd
  split
  · rename_i h
    rw [Option.some_inj]
    exact ⟨fun hc ↦ ⟨hc.symm, h⟩, fun hc ↦ hc.1.symm⟩
  · rename_i h
    exact iff_of_false (Option.some_ne_none c).symm fun hc ↦ h hc.2

/-- A sum returns when it fits in a word: the sums on the way to it are not larger. -/
theorem foldlM_checkedAdd_eq_some {l : List Nat} {a c : Nat} (ha : a < wordBound) :
    l.foldlM checkedAdd a = some c ↔ c = a + l.sum ∧ a + l.sum < wordBound := by
  induction l generalizing a with
  | nil =>
      rw [List.foldlM_nil, List.sum_nil, Nat.add_zero]
      exact ⟨fun h ↦ ⟨(Option.some_inj.mp h).symm, ha⟩, fun h ↦ congrArg some h.1.symm⟩
  | cons b l ih =>
      rw [List.foldlM_cons, List.sum_cons, ← Nat.add_assoc]
      constructor
      · intro h
        obtain ⟨d, hd, hrest⟩ := Option.bind_eq_some_iff.mp h
        obtain ⟨rfl, hlt⟩ := checkedAdd_eq_some.mp hd
        exact (ih hlt).mp hrest
      · rintro ⟨hc, hlt⟩
        have hab : a + b < wordBound := Nat.lt_of_le_of_lt (Nat.le_add_right _ _) hlt
        exact Option.bind_eq_some_iff.mpr
          ⟨a + b, checkedAdd_eq_some.mpr ⟨rfl, hab⟩, (ih hab).mpr ⟨hc, hlt⟩⟩

theorem checkedSum_eq_some {l : List Nat} {c : Nat} :
    checkedSum l = some c ↔ c = l.sum ∧ l.sum < wordBound := by
  unfold checkedSum
  rw [foldlM_checkedAdd_eq_some (by decide), Nat.zero_add]

/-! ## The code -/

/-- `p[i] += p[i - k]`. -/
def addEntry (k : Nat) (p : List Nat) (i : Nat) : Option (List Nat) := do
  let count ← checkedAdd (← p[i]?) (← p[i - k]?)
  return p.set i count

/-- The number of partitions of `n`, by a table of the numbers up to `n`. -/
def partitionCount (n : Nat) : Option Nat :=
  if n = 0 then some 1
  else do
    let p := (List.replicate (n + 1) 0).set 0 1
    let p ← (List.range' 1 n).foldlM
      (fun p k ↦ (List.range' k (n + 1 - k)).foldlM (addEntry k) p) p
    p[n]?

/-- Verify that a partition is valid: its parts are positive, add up to `n`, and do not
increase. -/
def verifyPartition (partition : IntegerPartition) (n : Nat) : Option Bool :=
  if partition.isEmpty && n == 0 then some true
  else if partition.isEmpty then some false
  else if partition.contains 0 then some false
  else do
    if (← checkedSum partition) ≠ n then return false
    return (List.range' 1 (partition.length - 1)).all fun i ↦
      !decide (partition.getD (i - 1) 0 < partition.getD i 0)

/-! ## What is listed -/

/-- A list of positive parts of at most `maxValue` that add up to `n`, the largest first. -/
structure IsPartition (maxValue n : Nat) (p : IntegerPartition) : Prop where
  sum : p.sum = n
  pos : ∀ part ∈ p, 0 < part
  le : ∀ part ∈ p, part ≤ maxValue
  sorted : p.Pairwise (· ≥ ·)

/-- What is collected in front of the recursion stays in front. -/
theorem generatePartitionsRecursive_eq_map (n maxValue : Nat) (current : List Nat) :
    generatePartitionsRecursive n maxValue current =
      (generatePartitionsRecursive n maxValue []).map (current ++ ·) := by
  induction n using Nat.strong_induction_on generalizing maxValue current with
  | _ n ih =>
      rw [generatePartitionsRecursive, generatePartitionsRecursive.eq_def n maxValue []]
      split
      · rw [List.map_singleton, List.append_nil]
      · rename_i hn
        rw [List.map_flatMap]
        refine List.flatMap_congr fun i _ ↦ ?_
        have hlt : n - (i + 1) < n := by omega
        rw [ih _ hlt, ih _ hlt (i + 1) ([] ++ [i + 1]), List.map_map]
        refine List.map_congr_left fun q _ ↦ ?_
        rw [Function.comp_apply, List.nil_append, List.append_assoc]

/-- The partitions are those with the largest part `i`, for every `i` that fits. -/
theorem generatePartitionsRecursive_nil {n : Nat} (hn : n ≠ 0) (maxValue : Nat) :
    generatePartitionsRecursive n maxValue [] =
      (List.range (min maxValue n)).reverse.flatMap fun i ↦
        (generatePartitionsRecursive (n - (i + 1)) (i + 1) []).map ((i + 1) :: ·) := by
  rw [generatePartitionsRecursive, if_neg hn]
  exact List.flatMap_congr fun i _ ↦ generatePartitionsRecursive_eq_map _ _ _

theorem isPartition_zero {maxValue : Nat} {p : IntegerPartition} :
    IsPartition maxValue 0 p ↔ p = [] := by
  constructor
  · intro h
    cases p with
    | nil => rfl
    | cons part p =>
        have hpart := h.pos part List.mem_cons_self
        have hsum := h.sum
        rw [List.sum_cons] at hsum
        omega
  · rintro rfl
    exact ⟨rfl, fun part h ↦ (List.not_mem_nil h).elim,
      fun part h ↦ (List.not_mem_nil h).elim, .nil⟩

/-- A partition is a part that fits, and a partition of the rest into parts that are not
larger. -/
theorem isPartition_cons {n maxValue i : Nat} {q : IntegerPartition} :
    IsPartition maxValue n ((i + 1) :: q) ↔
      i < min maxValue n ∧ IsPartition (i + 1) (n - (i + 1)) q := by
  constructor
  · intro h
    have hle := h.le (i + 1) List.mem_cons_self
    have hsum := h.sum
    rw [List.sum_cons] at hsum
    refine ⟨by omega, by omega, ?_, ?_, h.sorted.of_cons⟩
    · exact fun part hpart ↦ h.pos part (List.mem_cons_of_mem _ hpart)
    · exact fun part hpart ↦ List.rel_of_pairwise_cons h.sorted hpart
  · rintro ⟨hi, hq⟩
    refine ⟨?_, ?_, ?_, List.pairwise_cons.mpr ⟨hq.le, hq.sorted⟩⟩
    · rw [List.sum_cons, hq.sum]
      omega
    · exact List.forall_mem_cons.mpr ⟨Nat.succ_pos i, hq.pos⟩
    · exact List.forall_mem_cons.mpr
        ⟨by omega, fun part hpart ↦ (hq.le part hpart).trans (by omega)⟩

/-- Exactly the partitions into parts of at most `maxValue` are listed. -/
theorem mem_generatePartitionsRecursive {n maxValue : Nat} {p : IntegerPartition} :
    p ∈ generatePartitionsRecursive n maxValue [] ↔ IsPartition maxValue n p := by
  induction n using Nat.strong_induction_on generalizing maxValue p with
  | _ n ih =>
      rcases Nat.eq_zero_or_pos n with rfl | hpos
      · rw [generatePartitionsRecursive, if_pos rfl, List.mem_singleton, isPartition_zero]
      · rw [generatePartitionsRecursive_nil hpos.ne', List.mem_flatMap]
        constructor
        · rintro ⟨i, hi, hp⟩
          rw [List.mem_reverse, List.mem_range] at hi
          obtain ⟨q, hq, rfl⟩ := List.mem_map.mp hp
          exact isPartition_cons.mpr ⟨hi, (ih (n - (i + 1)) (by omega)).mp hq⟩
        · intro h
          cases p with
          | nil => exact absurd h.sum hpos.ne
          | cons part q =>
              obtain ⟨i, rfl⟩ := Nat.exists_eq_succ_of_ne_zero
                (h.pos part List.mem_cons_self).ne'
              obtain ⟨hi, hq⟩ := isPartition_cons.mp h
              refine ⟨i, List.mem_reverse.mpr (List.mem_range.mpr hi),
                List.mem_map.mpr ⟨q, ?_, rfl⟩⟩
              exact (ih (n - (i + 1)) (by omega)).mpr hq

/-- No partition is listed twice: lists from two branches differ in their first part. -/
theorem nodup_generatePartitionsRecursive (n maxValue : Nat) :
    (generatePartitionsRecursive n maxValue []).Nodup := by
  induction n using Nat.strong_induction_on generalizing maxValue with
  | _ n ih =>
      rcases Nat.eq_zero_or_pos n with rfl | hpos
      · rw [generatePartitionsRecursive, if_pos rfl]
        exact List.nodup_singleton _
      · rw [generatePartitionsRecursive_nil hpos.ne', List.nodup_flatMap]
        constructor
        · exact fun i _ ↦ (ih (n - (i + 1)) (by omega) (i + 1)).map List.cons_injective
        · refine (List.nodup_reverse.mpr List.nodup_range).imp fun hne p hp hp' ↦ hne ?_
          obtain ⟨q, -, rfl⟩ := List.mem_map.mp hp
          obtain ⟨q', -, heq⟩ := List.mem_map.mp hp'
          exact (Nat.succ_injective (List.cons.inj heq).1).symm

/-- The two branches of `generate_integer_partitions` are one. -/
theorem generateIntegerPartitions_eq (n : Nat) :
    generateIntegerPartitions n = generatePartitionsRecursive n n [] := by
  unfold generateIntegerPartitions
  split
  · rename_i hn
    rw [hn, generatePartitionsRecursive, if_pos rfl]
  · rfl

theorem mem_generateIntegerPartitions {n : Nat} {p : IntegerPartition} :
    p ∈ generateIntegerPartitions n ↔ IsPartition n n p := by
  rw [generateIntegerPartitions_eq, mem_generatePartitionsRecursive]

theorem nodup_generateIntegerPartitions (n : Nat) : (generateIntegerPartitions n).Nodup := by
  rw [generateIntegerPartitions_eq]
  exact nodup_generatePartitionsRecursive n n

/-! ## What is accepted -/

/-- The comparison of neighbours checks the order. -/
theorem all_neighbours_iff (p : List Nat) :
    ((List.range' 1 (p.length - 1)).all fun i ↦ !decide (p.getD (i - 1) 0 < p.getD i 0)) = true ↔
      p.Pairwise (· ≥ ·) := by
  rw [List.all_eq_true, ← List.isChain_iff_pairwise, List.isChain_iff_getElem]
  constructor
  · intro h i hi
    have hstep := h (i + 1) (List.mem_range'_1.mpr (by omega))
    rw [Nat.add_sub_cancel, List.getD_eq_getElem _ _ hi,
      List.getD_eq_getElem _ _ (Nat.lt_of_succ_lt hi), Bool.not_eq_true',
      decide_eq_false_iff_not, Nat.not_lt] at hstep
    exact hstep
  · intro h i hi
    rw [List.mem_range'_1] at hi
    obtain ⟨i, rfl⟩ : ∃ j, i = j + 1 := ⟨i - 1, by omega⟩
    have hlt : i + 1 < p.length := by omega
    rw [Nat.add_sub_cancel, List.getD_eq_getElem _ _ hlt,
      List.getD_eq_getElem _ _ (Nat.lt_of_succ_lt hlt), Bool.not_eq_true',
      decide_eq_false_iff_not, Nat.not_lt]
    exact h i hlt

/-- A part is not larger than the whole. -/
theorem isPartition_iff {n : Nat} {p : IntegerPartition} :
    IsPartition n n p ↔ p.sum = n ∧ 0 ∉ p ∧ p.Pairwise (· ≥ ·) := by
  constructor
  · intro h
    exact ⟨h.sum, fun hzero ↦ (h.pos 0 hzero).ne rfl, h.sorted⟩
  · rintro ⟨hsum, hzero, hsorted⟩
    refine ⟨hsum, fun part hpart ↦ Nat.pos_of_ne_zero fun h ↦ hzero (h ▸ hpart),
      fun part hpart ↦ ?_, hsorted⟩
    rw [← hsum]
    exact List.le_sum_of_mem hpart

/-- A list is accepted when it is a partition of a number that fits in a word. -/
theorem verifyPartition_eq_true_iff {n : Nat} {p : IntegerPartition} (hn : n < wordBound) :
    verifyPartition p n = some true ↔ IsPartition n n p := by
  rw [isPartition_iff]
  unfold verifyPartition
  rcases p with _ | ⟨part, q⟩
  · rcases Nat.eq_zero_or_pos n with rfl | hpos
    · exact iff_of_true rfl ⟨rfl, List.not_mem_nil, .nil⟩
    · rw [List.isEmpty_nil, Bool.true_and, if_neg (by simpa using hpos.ne'), if_pos rfl]
      exact iff_of_false (by simp) fun h ↦ hpos.ne h.1
  · rw [List.isEmpty_cons, Bool.false_and, if_neg Bool.false_ne_true, if_neg Bool.false_ne_true]
    split
    · rename_i hzero
      exact iff_of_false (by simp) fun h ↦ h.2.1 (List.contains_iff_mem.mp hzero)
    · rename_i hzero
      have hzero : 0 ∉ part :: q := fun h ↦ hzero (List.contains_iff_mem.mpr h)
      constructor
      · intro h
        obtain ⟨s, hs, h⟩ := Option.bind_eq_some_iff.mp h
        obtain ⟨rfl, -⟩ := checkedSum_eq_some.mp hs
        split at h
        · exact absurd h (by simp)
        · rename_i hsum
          exact ⟨not_not.mp hsum, hzero, (all_neighbours_iff _).mp (Option.some_inj.mp h)⟩
      · rintro ⟨hsum, -, hsorted⟩
        refine Option.bind_eq_some_iff.mpr
          ⟨n, checkedSum_eq_some.mpr ⟨hsum.symm, hsum ▸ hn⟩, ?_⟩
        rw [if_neg (not_not.mpr rfl), (all_neighbours_iff _).mpr hsorted]
        rfl

/-! ## How many there are -/

/-- The number of partitions of `n` into parts of at most `maxValue`. -/
def countUpTo (maxValue n : Nat) : Nat := (generatePartitionsRecursive n maxValue []).length

theorem countUpTo_zero_right (maxValue : Nat) : countUpTo maxValue 0 = 1 := by
  unfold countUpTo
  rw [generatePartitionsRecursive, if_pos rfl]
  rfl

/-- Without a part there is only the empty sum. -/
theorem countUpTo_zero_left (n : Nat) : countUpTo 0 n = if n = 0 then 1 else 0 := by
  split
  · rename_i hn
    rw [hn, countUpTo_zero_right]
  · rename_i hn
    unfold countUpTo
    rw [generatePartitionsRecursive_nil hn, Nat.zero_min]
    rfl

/-- A part size that is too large adds nothing. -/
theorem countUpTo_succ_of_lt {maxValue n : Nat} (h : n ≤ maxValue) :
    countUpTo (maxValue + 1) n = countUpTo maxValue n := by
  rcases Nat.eq_zero_or_pos n with rfl | hpos
  · rw [countUpTo_zero_right, countUpTo_zero_right]
  · unfold countUpTo
    rw [generatePartitionsRecursive_nil hpos.ne', generatePartitionsRecursive_nil hpos.ne',
      min_eq_right (h.trans maxValue.le_succ), min_eq_right h]

/-- Among the partitions into parts of at most `maxValue + 1` some have a part of this size,
the others do not. -/
theorem countUpTo_succ_of_le {maxValue n : Nat} (h : maxValue + 1 ≤ n) :
    countUpTo (maxValue + 1) n =
      countUpTo maxValue n + countUpTo (maxValue + 1) (n - (maxValue + 1)) := by
  have hn : n ≠ 0 := by omega
  unfold countUpTo
  rw [generatePartitionsRecursive_nil hn, min_eq_left h, List.range_succ, List.reverse_append,
    List.reverse_singleton, List.singleton_append, List.flatMap_cons, List.length_append,
    List.length_map, generatePartitionsRecursive_nil hn maxValue,
    min_eq_left (maxValue.le_succ.trans h), Nat.add_comm]

theorem countUpTo_le_succ (maxValue n : Nat) :
    countUpTo maxValue n ≤ countUpTo (maxValue + 1) n := by
  rcases Nat.lt_or_ge n (maxValue + 1) with h | h
  · exact (countUpTo_succ_of_lt (Nat.le_of_lt_succ h)).ge
  · rw [countUpTo_succ_of_le h]
    exact Nat.le_add_right _ _

/-- A partition of `n` becomes one of `n + 1` by a part of size one. -/
theorem countUpTo_succ_le_succ (maxValue n : Nat) :
    countUpTo (maxValue + 1) n ≤ countUpTo (maxValue + 1) (n + 1) := by
  induction maxValue generalizing n with
  | zero =>
      rw [countUpTo_succ_of_le (Nat.le_add_left 1 n), Nat.add_sub_cancel]
      exact Nat.le_add_left _ _
  | succ maxValue ihm =>
      induction n using Nat.strong_induction_on with
      | _ n ihn =>
          rcases Nat.lt_or_ge n (maxValue + 2) with h | h
          · calc countUpTo (maxValue + 2) n
                = countUpTo (maxValue + 1) n := countUpTo_succ_of_lt (Nat.le_of_lt_succ h)
              _ ≤ countUpTo (maxValue + 1) (n + 1) := ihm n
              _ ≤ countUpTo (maxValue + 2) (n + 1) := countUpTo_le_succ _ _
          · rw [countUpTo_succ_of_le h, countUpTo_succ_of_le (h.trans n.le_succ),
              Nat.succ_sub h]
            exact Nat.add_le_add (ihm n) (ihn _ (by omega))

/-- No entry of the table is larger than the last one. -/
theorem countUpTo_le {k i n : Nat} (hk : 0 < k) (hkn : k ≤ n) (hin : i ≤ n) :
    countUpTo k i ≤ countUpTo n n := by
  obtain ⟨k, rfl⟩ : ∃ j, k = j + 1 := ⟨k - 1, by omega⟩
  calc countUpTo (k + 1) i
      ≤ countUpTo (k + 1) n := monotone_nat_of_le_succ (countUpTo_succ_le_succ k) hin
    _ ≤ countUpTo n n :=
        monotone_nat_of_le_succ (f := (countUpTo · n)) (fun m ↦ countUpTo_le_succ m n) hkn

/-! ## The table -/

/-- The values of a function at `0, …, n`. -/
def table (n : Nat) (f : Nat → Nat) : List Nat := (List.range (n + 1)).map f

theorem getElem?_table {n i : Nat} {f : Nat → Nat} (h : i ≤ n) : (table n f)[i]? = some (f i) := by
  unfold table
  rw [List.getElem?_map, List.getElem?_range (Nat.lt_succ_of_le h)]
  rfl

theorem set_table (n i : Nat) (f : Nat → Nat) (c : Nat) :
    (table n f).set i c = table n fun j ↦ if j = i then c else f j := by
  unfold table
  refine List.ext_getElem? fun j ↦ ?_
  rw [List.getElem?_set, List.getElem?_map, List.getElem?_map, List.length_map, List.length_range]
  rcases Nat.lt_or_ge j (n + 1) with hj | hj
  · rw [List.getElem?_range hj]
    rcases eq_or_ne i j with rfl | hij
    · rw [if_pos rfl, if_pos hj, Option.map_some, if_pos rfl]
    · rw [if_neg hij, Option.map_some, Option.map_some, if_neg hij.symm]
  · rw [List.getElem?_eq_none (by rwa [List.length_range])]
    split
    · rw [if_neg (by omega)]
      rfl
    · rfl

/-- The pass for parts of size `k + 1` has come to entry `i`. -/
def midPass (k i j : Nat) : Nat := if j < i then countUpTo (k + 1) j else countUpTo k j

/-- One entry of a pass. -/
theorem addEntry_midPass {n k i : Nat} {t : List Nat} (hki : k + 1 ≤ i) (hin : i ≤ n) :
    addEntry (k + 1) (table n (midPass k i)) i = some t ↔
      countUpTo (k + 1) i < wordBound ∧ t = table n (midPass k (i + 1)) := by
  have hbefore : midPass k i (i - (k + 1)) = countUpTo (k + 1) (i - (k + 1)) :=
    if_pos (by omega)
  have hnow : midPass k i i = countUpTo k i := if_neg (Nat.lt_irrefl i)
  have hset : (table n (midPass k i)).set i (countUpTo (k + 1) i) =
      table n (midPass k (i + 1)) := by
    rw [set_table]
    refine List.map_congr_left fun j _ ↦ ?_
    unfold midPass
    rcases Nat.lt_trichotomy j i with h | rfl | h
    · rw [if_neg h.ne, if_pos h, if_pos (h.trans i.lt_succ_self)]
    · rw [if_pos rfl, if_pos j.lt_succ_self]
    · rw [if_neg h.ne', if_neg h.not_gt, if_neg (by omega)]
  unfold addEntry
  rw [getElem?_table hin, getElem?_table (by omega), hnow, hbefore]
  change (checkedAdd _ _).bind _ = _ ↔ _
  rw [Option.bind_eq_some_iff]
  constructor
  · rintro ⟨c, hc, ht⟩
    obtain ⟨rfl, hlt⟩ := checkedAdd_eq_some.mp hc
    rw [← countUpTo_succ_of_le hki] at ht hlt
    exact ⟨hlt, (Option.some_inj.mp ht).symm.trans hset⟩
  · rintro ⟨hlt, rfl⟩
    rw [countUpTo_succ_of_le hki] at hlt
    refine ⟨_, checkedAdd_eq_some.mpr ⟨rfl, hlt⟩, ?_⟩
    rw [← countUpTo_succ_of_le hki, hset]
    rfl

/-- A pass returns when none of its entries overflows, and then it has allowed for one more
part size. -/
theorem foldlM_addEntry {n k m i : Nat} {t : List Nat} (hki : k + 1 ≤ i) (him : i + m = n + 1) :
    (List.range' i m).foldlM (addEntry (k + 1)) (table n (midPass k i)) = some t ↔
      (∀ j, i ≤ j → j ≤ n → countUpTo (k + 1) j < wordBound) ∧
        t = table n (midPass k (n + 1)) := by
  induction m generalizing i with
  | zero =>
      obtain rfl : i = n + 1 := him
      rw [List.range'_zero, List.foldlM_nil]
      exact ⟨fun h ↦ ⟨fun j hj hjn ↦ absurd hjn (Nat.not_le.mpr hj), (Option.some_inj.mp h).symm⟩,
        fun h ↦ congrArg some h.2.symm⟩
  | succ m ih =>
      rw [List.range'_succ, List.foldlM_cons]
      constructor
      · intro h
        obtain ⟨t', ht', hrest⟩ := Option.bind_eq_some_iff.mp h
        obtain ⟨hlt, rfl⟩ := (addEntry_midPass hki (by omega)).mp ht'
        obtain ⟨hall, ht⟩ := (ih (hki.trans i.le_succ) (by omega)).mp hrest
        refine ⟨fun j hij hjn ↦ ?_, ht⟩
        rcases Nat.eq_or_lt_of_le hij with rfl | hlt'
        · exact hlt
        · exact hall j hlt' hjn
      · rintro ⟨hall, ht⟩
        refine Option.bind_eq_some_iff.mpr ⟨_, (addEntry_midPass hki (by omega)).mpr
          ⟨hall i le_rfl (by omega), rfl⟩, (ih (hki.trans i.le_succ) (by omega)).mpr ⟨?_, ht⟩⟩
        exact fun j hij hjn ↦ hall j (Nat.le_of_lt hij) hjn

theorem midPass_first (n k : Nat) :
    table n (midPass k (k + 1)) = table n (countUpTo k) := by
  refine List.map_congr_left fun j _ ↦ ?_
  unfold midPass
  split
  · rename_i hj
    exact countUpTo_succ_of_lt (Nat.le_of_lt_succ hj)
  · rfl

theorem midPass_last (n k : Nat) :
    table n (midPass k (n + 1)) = table n (countUpTo (k + 1)) :=
  List.map_congr_left fun _ hj ↦ if_pos (List.mem_range.mp hj)

/-- One pass, for the parts of one size. -/
theorem foldlM_pass {n m : Nat} {t : List Nat} (hm : m < n) :
    (List.range' (m + 1) (n + 1 - (m + 1))).foldlM (addEntry (m + 1)) (table n (countUpTo m)) =
      some t ↔
      (∀ j, m + 1 ≤ j → j ≤ n → countUpTo (m + 1) j < wordBound) ∧
        t = table n (countUpTo (m + 1)) := by
  rw [← midPass_first, ← midPass_last]
  exact foldlM_addEntry le_rfl (by omega)

/-- The passes for the part sizes up to `m`. -/
theorem foldlM_passes {n m : Nat} {t : List Nat} (hm : m ≤ n) :
    (List.range' 1 m).foldlM
        (fun p k ↦ (List.range' k (n + 1 - k)).foldlM (addEntry k) p) (table n (countUpTo 0)) =
      some t ↔
      (∀ k, 0 < k → k ≤ m → ∀ j, k ≤ j → j ≤ n → countUpTo k j < wordBound) ∧
        t = table n (countUpTo m) := by
  induction m generalizing t with
  | zero =>
      rw [List.range'_zero, List.foldlM_nil]
      exact ⟨fun h ↦ ⟨fun k hk hkm ↦ absurd hkm (Nat.not_le.mpr hk), (Option.some_inj.mp h).symm⟩,
        fun h ↦ congrArg some h.2.symm⟩
  | succ m ih =>
      rw [List.range'_1_concat, List.foldlM_append, Nat.add_comm 1 m]
      constructor
      · intro h
        obtain ⟨t', ht', hlast⟩ := Option.bind_eq_some_iff.mp h
        obtain ⟨hall, rfl⟩ := (ih (by omega)).mp ht'
        simp only [List.foldlM_cons, List.foldlM_nil, bind_pure] at hlast
        obtain ⟨hnew, ht⟩ := (foldlM_pass hm).mp hlast
        refine ⟨fun k hk hkm ↦ ?_, ht⟩
        rcases Nat.eq_or_lt_of_le hkm with rfl | hlt
        · exact hnew
        · exact hall k hk (Nat.le_of_lt_succ hlt)
      · rintro ⟨hall, ht⟩
        refine Option.bind_eq_some_iff.mpr ⟨_, (ih (by omega)).mpr
          ⟨fun k hk hkm ↦ hall k hk (Nat.le_succ_of_le hkm), rfl⟩, ?_⟩
        simp only [List.foldlM_cons, List.foldlM_nil, bind_pure]
        exact (foldlM_pass hm).mpr ⟨hall (m + 1) m.succ_pos le_rfl, ht⟩

/-- The table before the first pass counts the sums without a part. -/
theorem initial_table (n : Nat) :
    (List.replicate (n + 1) 0).set 0 1 = table n (countUpTo 0) := by
  have hreplicate : List.replicate (n + 1) 0 = table n fun _ ↦ 0 := by
    unfold table
    rw [List.map_const', List.length_range]
  rw [hreplicate, set_table]
  exact List.map_congr_left fun j _ ↦ (countUpTo_zero_left j).symm

/-- The table's last entry is the number of partitions, if that is a word. -/
theorem partitionCount_eq_some {n c : Nat} :
    partitionCount n = some c ↔
      c = (generateIntegerPartitions n).length ∧ c < wordBound := by
  rw [generateIntegerPartitions_eq]
  change _ ↔ c = countUpTo n n ∧ _
  unfold partitionCount
  split
  · rename_i hn
    rw [hn, countUpTo_zero_right, Option.some_inj]
    exact ⟨fun h ↦ ⟨h.symm, h ▸ by decide⟩, fun h ↦ h.1.symm⟩
  · rename_i hn
    have hpos : 0 < n := Nat.pos_of_ne_zero hn
    rw [initial_table]
    change Option.bind _ _ = _ ↔ _
    rw [Option.bind_eq_some_iff]
    constructor
    · rintro ⟨t, ht, hc⟩
      obtain ⟨hall, rfl⟩ := (foldlM_passes le_rfl).mp ht
      rw [getElem?_table le_rfl, Option.some_inj] at hc
      subst hc
      exact ⟨rfl, hall n hpos le_rfl n le_rfl le_rfl⟩
    · rintro ⟨rfl, hlt⟩
      refine ⟨_, (foldlM_passes le_rfl).mpr ⟨fun k hk hkn j _ hjn ↦ ?_, rfl⟩,
        getElem?_table le_rfl⟩
      exact Nat.lt_of_le_of_lt (countUpTo_le hk hkn hjn) hlt

/-- The listed partitions of a word are the accepted ones, each once, and the table counts
them unless a count overflows. -/
theorem integer_partitions_complete (n : Fin wordBound) :
    (generateIntegerPartitions n).Nodup ∧
      (∀ p, p ∈ generateIntegerPartitions n ↔ verifyPartition p n = some true) ∧
      ∀ c, partitionCount n = some c ↔
        c = (generateIntegerPartitions n).length ∧ c < wordBound := by
  refine ⟨nodup_generateIntegerPartitions n, fun p ↦ ?_, fun c ↦ partitionCount_eq_some⟩
  rw [mem_generateIntegerPartitions, verifyPartition_eq_true_iff n.isLt]

end Koalisi.Algorithms
