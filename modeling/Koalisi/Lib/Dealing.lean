import Mathlib.Algebra.BigOperators.Group.List.Basic
import Mathlib.Algebra.GroupWithZero.Nat
import Mathlib.Algebra.Order.Group.Nat
import Mathlib.Data.List.AList

/-!
# Dealing out

A total is dealt out in proportion to weights.  Parts that are rounded down do not exceed the
total, and they miss it by fewer units than there are parts.

Who holds what is a finite map of hands.  A new hand takes the place of the one that was held
under its key, and so the items of the old one are no longer held (`held_insert`).
-/

namespace Koalisi.Lib.Dealing

/-! ## Parts in proportion -/

section Parts

variable {α : Type} (total : Nat) (weight : α → Nat) (l : List α)

theorem mul_sum_div_le (sum : Nat) :
    sum * (l.map fun a ↦ total * weight a / sum).sum ≤ total * (l.map weight).sum := by
  induction l with
  | nil => exact Nat.zero_le _
  | cons a l ih =>
      rw [List.map_cons, List.sum_cons, List.map_cons, List.sum_cons, Nat.mul_add, Nat.mul_add]
      exact Nat.add_le_add (Nat.mul_div_le _ _) ih

/-- Parts that are rounded down do not exceed the total. -/
theorem sum_div_le : (l.map fun a ↦ total * weight a / (l.map weight).sum).sum ≤ total := by
  rcases Nat.eq_zero_or_pos (l.map weight).sum with hzero | hpos
  · simp [hzero]
  · have hle := mul_sum_div_le total weight l (l.map weight).sum
    rw [Nat.mul_comm total] at hle
    exact Nat.le_of_mul_le_mul_left hle hpos

theorem mul_sum_add_length_le {sum : Nat} (hpos : 0 < sum) : total * (l.map weight).sum + l.length ≤
    sum * ((l.map fun a ↦ total * weight a / sum).sum + l.length) := by
  induction l with
  | nil => exact Nat.le_refl 0
  | cons a l ih =>
      have hpart : total * weight a < sum * (total * weight a / sum + 1) :=
        Nat.lt_mul_div_succ _ hpos
      rw [List.map_cons, List.sum_cons, List.map_cons, List.sum_cons, List.length_cons]
      calc total * (weight a + (l.map weight).sum) + (l.length + 1)
          = total * weight a + 1 + (total * (l.map weight).sum + l.length) := by
            rw [Nat.mul_add]
            omega
        _ ≤ sum * (total * weight a / sum + 1) +
              sum * ((l.map fun a ↦ total * weight a / sum).sum + l.length) :=
            Nat.add_le_add hpart ih
        _ = _ := by
            rw [← Nat.mul_add]
            congr 1
            omega

/-- Rounding down loses less than one unit for each part. -/
theorem sub_sum_div_lt (hpos : 0 < (l.map weight).sum) :
    total - (l.map fun a ↦ total * weight a / (l.map weight).sum).sum < l.length := by
  have hlength : 0 < l.length := by
    refine List.length_pos_iff.mpr fun hnil ↦ ?_
    rw [hnil] at hpos
    exact Nat.lt_irrefl 0 hpos
  have hle := mul_sum_add_length_le total weight l hpos
  rw [Nat.mul_comm total] at hle
  have hlt := Nat.lt_of_mul_lt_mul_left (Nat.lt_of_lt_of_le (Nat.lt_add_of_pos_right hlength) hle)
  have hsum := sum_div_le total weight l
  omega

end Parts

/-! ## Hands -/

section Hands

variable {κ β ι : Type} [DecidableEq κ] (hand : β → List ι)

/-- All items that are held. -/
def held (m : AList fun _ : κ ↦ β) : List ι := m.entries.flatMap fun e ↦ hand e.2

/-- The items that are held under a key. -/
def heldBy (m : AList fun _ : κ ↦ β) (k : κ) : List ι := (m.lookup k).elim [] hand

variable {hand} {m : AList fun _ : κ ↦ β} {k k' : κ} {b b' : β}

theorem heldBy_insert : heldBy hand (m.insert k b) k = hand b := by
  rw [heldBy, AList.lookup_insert]
  rfl

theorem heldBy_insert_ne (h : k' ≠ k) : heldBy hand (m.insert k b) k' = heldBy hand m k' := by
  rw [heldBy, AList.lookup_insert_ne h]
  rfl

/-- What is lost on the way, and what comes at the end. -/
theorem append_perm_append {held before after lost rest : List ι}
    (h : after.Perm (held ++ rest)) (h' : (held ++ lost).Perm before) :
    (after ++ lost).Perm (before ++ rest) := by
  refine (h.append_right lost).trans ?_
  rw [List.append_assoc]
  refine (List.perm_append_comm.append_left held).trans ?_
  rw [← List.append_assoc]
  exact h'.append_right rest

/-- A hand is held in place of the one that was held under its key. -/
theorem held_insert (m : AList fun _ : κ ↦ β) (k : κ) (b : β) :
    (held hand (m.insert k b) ++ heldBy hand m k).Perm (hand b ++ held hand m) := by
  by_cases hk : k ∈ m
  · obtain ⟨b', front, back, -, hentries, herase⟩ := List.exists_of_kerase hk
    have hlookup : m.lookup k = some b' := by
      refine AList.mem_lookup_iff.mpr ?_
      rw [hentries]
      exact List.mem_append_right _ List.mem_cons_self
    rw [held, AList.entries_insert, herase, heldBy, hlookup, held, hentries]
    simp only [List.flatMap_cons, List.flatMap_append, Option.elim_some, List.append_assoc]
    exact (List.perm_append_comm.append_left _).append_left _
  · rw [held, AList.entries_insert_of_notMem hk, heldBy, AList.lookup_eq_none.mpr hk,
      Option.elim_none, List.append_nil, List.flatMap_cons]
    exact List.Perm.refl _

/-- A hand with one more item. -/
theorem held_insert_concat {x : ι} (hlookup : m.lookup k = some b')
    (hconcat : hand b = hand b' ++ [x]) :
    (held hand (m.insert k b)).Perm (held hand m ++ [x]) := by
  have hperm : (held hand (m.insert k b) ++ heldBy hand m k).Perm _ := held_insert m k b
  rw [heldBy, hlookup, Option.elim_some, hconcat, List.append_assoc] at hperm
  have hmove : (hand b' ++ ([x] ++ held hand m)).Perm (held hand m ++ [x] ++ hand b') :=
    List.perm_append_comm.trans (List.perm_append_comm.append_right _)
  exact (List.perm_append_right_iff _).mp (hperm.trans hmove)

/-- What is held is what is held under each key. -/
theorem held_eq_flatMap_keys (m : AList fun _ : κ ↦ β) :
    held hand m = m.keys.flatMap (heldBy hand m) := by
  rw [held, AList.keys, List.keys, List.flatMap_map]
  refine List.flatMap_congr fun e he ↦ ?_
  have hlookup : m.lookup e.1 = some e.2 := AList.mem_lookup_iff.mpr he
  rw [heldBy, hlookup, Option.elim_some]

end Hands

end Koalisi.Lib.Dealing
