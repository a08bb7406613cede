import Mathlib.Algebra.BigOperators.Group.List.Lemmas
import Mathlib.Algebra.GroupWithZero.Nat
import Koalisi.Lib.Ranking
import Std.Data.TreeMap

/-!
# Counting

A map counts the keys of a list when it has the keys that occur, and says how often each does.  It
is made by going through the list and adding one at each key.

What is read off such a map is the same for all lists with the same keys (`Counted.equiv_iff`), and
its numbers add up to the length of the list.  Ranked by number and cut short, it has the keys that
occur most often.
-/

universe u

namespace Koalisi.Lib

/-- Numbers by key. -/
abbrev Counts (K : Type u) [Ord K] := Std.TreeMap K Nat

namespace Counts

variable {K : Type u} [Ord K]

/-- Count a key once more: `*entry(k).or_insert(0) += 1`. -/
def bump (m : Counts K) (k : K) : Counts K := m.alter k fun n ↦ some (n.getD 0 + 1)

/-- Count the keys of a list. -/
def ofList (ks : List K) : Counts K := ks.foldl bump ∅

variable [DecidableEq K]

/-- The keys of the map are those that occur, and their numbers say how often. -/
structure Counted (ks : List K) (m : Counts K) : Prop where
  listed : ∀ k, k ∈ m ↔ k ∈ ks
  counted : ∀ k, m[k]?.getD 0 = ks.count k

variable [Std.TransOrd K]

theorem Counted.empty : Counted ([] : List K) ∅ where
  listed k := by simp
  counted k := by simp

/-- The map says how often each of its keys occurs. -/
theorem Counted.getElem?_eq {ks : List K} {m : Counts K} (h : Counted ks m) (k : K) :
    m[k]? = if k ∈ ks then some (ks.count k) else none := by
  split
  · next hk =>
      obtain ⟨n, hn⟩ := Option.isSome_iff_exists.mp
        (Std.TreeMap.mem_iff_isSome_getElem?.mp ((h.listed k).mpr hk))
      have hcount := h.counted k
      rw [hn] at hcount
      rw [hn, ← hcount]
      rfl
  · next hk => exact Std.TreeMap.getElem?_eq_none fun hmem ↦ hk ((h.listed k).mp hmem)

variable [Std.LawfulEqOrd K]

theorem getElem?_bump (m : Counts K) (k k' : K) :
    (m.bump k)[k']? = if k' = k then some (m[k']?.getD 0 + 1) else m[k']? := by
  rw [bump, Std.TreeMap.getElem?_alter]
  by_cases h : k' = k
  · subst h
    rw [if_pos Std.compare_self, if_pos rfl]
  · rw [if_neg h, if_neg fun hc ↦ h (Std.LawfulEqOrd.eq_of_compare hc).symm]

namespace Counted

variable {ks ks' : List K} {m m' : Counts K}

theorem bump (h : Counted ks m) (k : K) : Counted (ks ++ [k]) (m.bump k) where
  listed k' := by
    rw [Std.TreeMap.mem_iff_isSome_getElem?, getElem?_bump, List.mem_append, List.mem_singleton,
      ← h.listed, Std.TreeMap.mem_iff_isSome_getElem?]
    by_cases hk : k' = k
    · rw [if_pos hk]
      exact iff_of_true rfl (Or.inr hk)
    · rw [if_neg hk, or_iff_left hk]
  counted k' := by
    rw [getElem?_bump, List.count_append, ← h.counted]
    by_cases hk : k' = k
    · subst hk
      rw [if_pos rfl, List.count_singleton_self]
      rfl
    · rw [if_neg hk, List.count_eq_zero_of_not_mem fun hs ↦ hk (List.mem_singleton.mp hs),
        Nat.add_zero]

/-- Going through a list counts its keys. -/
theorem foldl (h : Counted ks m) (later : List K) :
    Counted (ks ++ later) (later.foldl Counts.bump m) := by
  induction later generalizing ks m with
  | nil => simpa using h
  | cons k later ih =>
      have hrest := ih (h.bump k)
      rwa [List.append_assoc] at hrest

theorem ofList (ks : List K) : Counted ks (Counts.ofList ks) := Counted.empty.foldl ks

theorem mem_toList_iff (h : Counted ks m) (entry : K × Nat) :
    entry ∈ m.toList ↔ entry.1 ∈ ks ∧ entry.2 = ks.count entry.1 := by
  rw [show entry = (entry.1, entry.2) from rfl, Std.TreeMap.mem_toList_iff_getElem?_eq_some,
    h.getElem?_eq]
  by_cases hk : entry.1 ∈ ks
  · rw [if_pos hk, Option.some_inj, and_iff_right hk, eq_comm]
  · rw [if_neg hk]
    exact iff_of_false (fun hnone ↦ Option.some_ne_none _ hnone.symm) fun hand ↦ hk hand.1

/-- The keys of the map are those of the list, each once. -/
theorem keys_perm (h : Counted ks m) : m.keys.Perm ks.dedup := by
  refine (List.perm_ext_iff_of_nodup Std.TreeMap.nodup_keys (List.nodup_dedup _)).mpr fun k ↦ ?_
  rw [Std.TreeMap.mem_keys, h.listed, List.mem_dedup]

/-- The numbers add up to the length of the list. -/
theorem sum_keys (h : Counted ks m) : (m.keys.map fun k ↦ m[k]?.getD 0).sum = ks.length := by
  rw [(h.keys_perm.map _).sum_eq, List.map_congr_left fun k _ ↦ h.counted k]
  exact List.sum_map_count_dedup_eq_length _

theorem sum_toList (h : Counted ks m) : (m.toList.map Prod.snd).sum = ks.length := by
  rw [← h.sum_keys, ← Std.TreeMap.map_fst_toList_eq_keys, List.map_map]
  refine congrArg List.sum (List.map_congr_left fun entry hentry ↦ ?_)
  rw [Function.comp_apply, Std.TreeMap.mem_toList_iff_getElem?_eq_some.mp hentry]
  rfl

/-- Two maps have the same numbers if their lists have the same keys, in whatever order. -/
theorem equiv_iff (h : Counted ks m) (h' : Counted ks' m') : m.Equiv m' ↔ ks.Perm ks' := by
  constructor
  · intro hequiv
    refine List.perm_iff_count.mpr fun k ↦ ?_
    rw [← h.counted, ← h'.counted, hequiv.getElem?_eq]
  · intro hperm
    refine Std.TreeMap.Equiv.of_forall_constGet?_eq fun k ↦ ?_
    rw [h.getElem?_eq, h'.getElem?_eq, hperm.count_eq]
    simp only [hperm.mem_iff]

end Counted

end Counts

/-! ## The first of a ranking -/

section Leaders

variable {E : Type u} {value : E → Nat} {es : List E} {n : Nat}

/-- A ranking goes down, also when it is cut short. -/
theorem pairwise_take_ranking (value : E → Nat) (es : List E) (n : Nat) :
    ((ranking value es).take n).Pairwise fun a b ↦ value b ≤ value a :=
  (chronicle.pairwise (fun e ↦ OrderDual.toDual (value e)) es).sublist (List.take_sublist _ _)

/-- What is cut off a ranking does not have more than what is left of it. -/
theorem le_of_mem_take_ranking {a b : E} (ha : a ∈ (ranking value es).take n) (hb : b ∈ es)
    (hnot : b ∉ (ranking value es).take n) : value b ≤ value a := by
  have hdrop : b ∈ (ranking value es).drop n := by
    have hmem : b ∈ ranking value es := (chronicle.mem_iff _).mpr hb
    rw [← List.take_append_drop n (ranking value es)] at hmem
    exact (List.mem_append.mp hmem).resolve_left hnot
  have hdown : (ranking value es).Pairwise fun a b ↦ value b ≤ value a :=
    chronicle.pairwise (fun e ↦ OrderDual.toDual (value e)) es
  rw [← List.take_append_drop n (ranking value es), List.pairwise_append] at hdown
  exact hdown.2.2 a ha b hdrop

end Leaders

end Koalisi.Lib
