import Mathlib.Algebra.Order.BigOperators.Group.List
import Mathlib.Algebra.GroupWithZero.Nat
import Mathlib.Algebra.Order.Group.Nat
import Mathlib.Data.List.GetD

/-!
# Sums of numbers in a list

A ledger is a list of numbers, one for each account.  An entry adds one to one of the numbers
and to the sum.  Where nothing exceeds what it should be and the sums are the same, everything
is what it should be.
-/

namespace Koalisi.Lib

/-- One more at a place of a list is one more in its sum. -/
theorem sum_modify_succ {l : List Nat} {i : Nat} (h : i < l.length) :
    (l.modify i (· + 1)).sum = l.sum + 1 := by
  induction l generalizing i with
  | nil => exact absurd h (Nat.not_lt_zero i)
  | cons n l ih =>
      cases i with
      | zero =>
          rw [List.modify_zero_cons, List.sum_cons, List.sum_cons]
          exact Nat.add_right_comm n 1 _
      | succ i =>
          rw [List.modify_succ_cons, List.sum_cons, List.sum_cons,
            ih (Nat.lt_of_succ_lt_succ h)]
          rfl

variable {α : Type}

/-- The numbers of a list, looked up by the places of another one that is as long. -/
theorem map_zipIdx_getD {labels : List α} {l : List Nat} (h : labels.length = l.length) :
    (labels.zipIdx.map fun p ↦ l.getD p.2 0) = l := by
  refine List.ext_getElem ?_ fun i hi hi' ↦ ?_
  · rw [List.length_map, List.length_zipIdx, h]
  · rw [List.getElem_map, List.getElem_zipIdx, Nat.zero_add, List.getD_eq_getElem _ _ hi']

/-- Fewer of some numbers that are not negative have a smaller sum. -/
theorem sum_map_filter_le {K : Type} [AddCommMonoid K] [PartialOrder K] [IsOrderedAddMonoid K]
    {l : List α} {p q : α → Bool} {f : α → K} (hf : ∀ a, 0 ≤ f a)
    (hpq : ∀ a ∈ l, p a = true → q a = true) :
    ((l.filter p).map f).sum ≤ ((l.filter q).map f).sum := by
  induction l with
  | nil => rfl
  | cons a l ih =>
      have ih := ih fun b hb ↦ hpq b (List.mem_cons_of_mem a hb)
      cases hp : p a with
      | false =>
          rw [List.filter_cons_of_neg (by simp [hp]), List.filter_cons]
          split
          · rw [List.map_cons, List.sum_cons]
            exact ih.trans (le_add_of_nonneg_left (hf a))
          · exact ih
      | true =>
          rw [List.filter_cons_of_pos hp, List.filter_cons_of_pos (hpq a List.mem_cons_self hp),
            List.map_cons, List.map_cons, List.sum_cons, List.sum_cons]
          exact add_le_add le_rfl ih

/-- Numbers that are nowhere larger and have the same sum are the same. -/
theorem eq_of_sum_eq {l : List α} {f g : α → Nat} (hle : ∀ a ∈ l, f a ≤ g a)
    (hsum : (l.map f).sum = (l.map g).sum) {a : α} (ha : a ∈ l) : f a = g a := by
  by_contra hne
  have hlt : f a < g a := Nat.lt_of_le_of_ne (hle a ha) hne
  exact (List.sum_lt_sum f g hle ⟨a, ha, hlt⟩).ne hsum

end Koalisi.Lib
