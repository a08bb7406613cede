import Mathlib.Data.List.Induction
import Mathlib.Order.Compare
import Mathlib.Order.OrderDual
import Koalisi.Lib.Chronicle

/-!
# Selecting a maximum, and ranking

Two ways to find what has the greatest value.  One walks along the list and keeps an element
until one comes that is at least as great; it ends with the *last* of the greatest ones.  The
other sorts, and a stable sort has the greatest ones in front, in the order of the list.
-/

universe u v

namespace Koalisi.Lib

variable {E : Type u} {T : Type v}

/-- The greatest element by a comparison; among equal ones the last. -/
def maxBy (cmp : E → E → Ordering) : List E → Option E
  | [] => none
  | a :: l => some (l.foldl (fun x y ↦ if cmp x y = .gt then x else y) a)

theorem maxBy_concat (cmp : E → E → Ordering) (l : List E) (a : E) :
    maxBy cmp (l ++ [a]) =
      some ((maxBy cmp l).elim a fun x ↦ if cmp x a = .gt then x else a) := by
  cases l with
  | nil => rfl
  | cons b l =>
      rw [List.cons_append, maxBy, List.foldl_append]
      rfl

/-- The least element by a comparison; among equal ones the first. -/
def minBy (cmp : E → E → Ordering) : List E → Option E
  | [] => none
  | a :: l => some (l.foldl (fun x y ↦ if cmp x y = .gt then y else x) a)

variable [LinearOrder T] {value : E → T}

/-- The selected element is the last one of the greatest value. -/
theorem maxBy_spec {l : List E} {x : E}
    (h : maxBy (fun a b ↦ compare (value a) (value b)) l = some x) :
    (∀ y ∈ l, value y ≤ value x) ∧
      (l.filter fun y ↦ value y = value x).getLast? = some x := by
  induction l using List.reverseRecOn generalizing x with
  | nil => exact absurd h.symm (Option.some_ne_none x)
  | append_singleton l a ih =>
      rw [maxBy_concat, Option.some_inj] at h
      have hlast : (∀ y ∈ l, value y ≤ value a) →
          (∀ y ∈ l ++ [a], value y ≤ value a) ∧
            ((l ++ [a]).filter fun y ↦ value y = value a).getLast? = some a := by
        intro hle
        refine ⟨List.forall_mem_append.mpr ⟨hle, List.forall_mem_singleton.mpr le_rfl⟩, ?_⟩
        rw [List.filter_append, List.filter_singleton, decide_eq_true rfl, cond_true,
          List.getLast?_concat]
      rcases hl : maxBy (fun a b ↦ compare (value a) (value b)) l with _ | x'
      · rw [hl] at h
        cases h
        cases l with
        | nil => exact hlast fun y hy ↦ absurd hy List.not_mem_nil
        | cons b l => exact absurd hl (Option.some_ne_none _)
      · obtain ⟨hle, hx'⟩ := ih hl
        rw [hl, Option.elim_some] at h
        split at h
        · rename_i hgt
          subst h
          have hlt : value a < value x' := compare_gt_iff_gt.mp hgt
          refine ⟨List.forall_mem_append.mpr ⟨hle, List.forall_mem_singleton.mpr hlt.le⟩, ?_⟩
          rw [List.filter_append, List.filter_singleton, decide_eq_false hlt.ne, cond_false,
            List.append_nil]
          exact hx'
        · rename_i hgt
          subst h
          have hge : value x' ≤ value a := not_lt.mp fun hlt ↦ hgt (compare_gt_iff_gt.mpr hlt)
          exact hlast fun y hy ↦ (hle y hy).trans hge

/-- There is a greatest element in a list that is not empty. -/
theorem exists_maxBy {l : List E} (h : l ≠ []) :
    ∃ x ∈ l, maxBy (fun a b ↦ compare (value a) (value b)) l = some x ∧
      ∀ y ∈ l, value y ≤ value x := by
  cases hx : maxBy (fun a b ↦ compare (value a) (value b)) l with
  | none =>
      cases l with
      | nil => exact absurd rfl h
      | cons a l => exact absurd hx (Option.some_ne_none _)
  | some x =>
      obtain ⟨hle, hlast⟩ := maxBy_spec hx
      exact ⟨x, (List.mem_filter.mp (List.mem_of_getLast? hlast)).1, rfl, hle⟩

/-- There is a least one. -/
theorem exists_minBy {l : List E} (h : l ≠ []) :
    ∃ x ∈ l, minBy (fun a b ↦ compare (value a) (value b)) l = some x ∧
      ∀ y ∈ l, value x ≤ value y := by
  obtain ⟨a, l, rfl⟩ := List.exists_cons_of_ne_nil h
  induction l using List.reverseRecOn with
  | nil => exact ⟨a, List.mem_cons_self, rfl, List.forall_mem_singleton.mpr le_rfl⟩
  | append_singleton l b ih =>
      obtain ⟨x, hx, hmin, hle⟩ := ih (List.cons_ne_nil _ _)
      have hfold : minBy (fun a b ↦ compare (value a) (value b)) (a :: (l ++ [b])) =
          some (if compare (value x) (value b) = .gt then b else x) := by
        rw [minBy, Option.some_inj] at hmin
        rw [minBy, List.foldl_append, hmin]
        rfl
      rw [hfold, ← List.cons_append]
      split
      · rename_i hgt
        have hlt : value b < value x := compare_gt_iff_gt.mp hgt
        refine ⟨b, List.mem_append_right _ List.mem_cons_self, rfl, ?_⟩
        exact List.forall_mem_append.mpr
          ⟨fun y hy ↦ hlt.le.trans (hle y hy), List.forall_mem_singleton.mpr le_rfl⟩
      · rename_i hgt
        have hge : value x ≤ value b := not_lt.mp fun hlt ↦ hgt (compare_gt_iff_gt.mpr hlt)
        refine ⟨x, List.mem_append_left _ hx, rfl, ?_⟩
        exact List.forall_mem_append.mpr ⟨hle, List.forall_mem_singleton.mpr hge⟩

/-- The elements in the order of their values, the greatest first; those of one value in list
order. -/
def ranking (value : E → T) (es : List E) : List E :=
  chronicle (fun e ↦ OrderDual.toDual (value e)) es

end Koalisi.Lib
