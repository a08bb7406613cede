import Mathlib.Data.Set.Function
import Mathlib.Data.List.Induction

/-!
# Hash chains

A sequence in which every item carries the hash of the item before it, and the
first carries none.  The hash of the last item then commits to the whole
sequence: two chains that end in the same hash are the same chain, as far as the
hash tells the items in them apart (`Linked.eq_of_tip_eq`).
-/

universe u v w

namespace Koalisi.Lib.HashChain

variable {α : Type u} {H : Type v} (link : α → Option H) (hash : α → H)

/-- Each item carries the hash of the item before it, the first one `prev`. -/
def Linked (prev : Option H) : List α → Prop
  | [] => True
  | x :: xs => link x = prev ∧ Linked (some (hash x)) xs

/-- The hash the next item has to carry. -/
def tip (prev : Option H) : List α → Option H
  | [] => prev
  | x :: xs => tip (some (hash x)) xs

variable {link hash}

@[simp] theorem tip_append (prev : Option H) (xs ys : List α) :
    tip hash prev (xs ++ ys) = tip hash (tip hash prev xs) ys := by
  induction xs generalizing prev with
  | nil => rfl
  | cons x xs ih => exact ih _

theorem tip_concat (prev : Option H) (xs : List α) (x : α) :
    tip hash prev (xs ++ [x]) = some (hash x) := tip_append prev xs [x]

theorem tip_eq_getLast? (xs : List α) : tip hash none xs = xs.getLast?.map hash := by
  rcases List.eq_nil_or_concat xs with rfl | ⟨ys, y, rfl⟩
  · rfl
  · rw [List.concat_eq_append, tip_concat, List.getLast?_concat, Option.map_some]

/-- A chain is checked piece by piece. -/
theorem linked_append {prev : Option H} {xs ys : List α} :
    Linked link hash prev (xs ++ ys) ↔
      Linked link hash prev xs ∧ Linked link hash (tip hash prev xs) ys := by
  induction xs generalizing prev with
  | nil => exact (iff_of_eq (true_and _)).symm
  | cons x xs ih =>
      change link x = prev ∧ Linked link hash _ (xs ++ ys) ↔
        (link x = prev ∧ Linked link hash _ xs) ∧ _
      rw [ih, and_assoc]
      rfl

theorem linked_concat {prev : Option H} {xs : List α} {x : α} :
    Linked link hash prev (xs ++ [x]) ↔
      Linked link hash prev xs ∧ link x = tip hash prev xs := by
  rw [linked_append]
  exact and_congr_right fun _ ↦ and_iff_left trivial

/-- Whether items are linked is seen in their links and hashes. -/
theorem linked_congr {β : Type w} {link' : β → Option H} {hash' : β → H} {prev : Option H}
    {xs : List α} {ys : List β} (hl : xs.map link = ys.map link')
    (hh : xs.map hash = ys.map hash') :
    Linked link hash prev xs ↔ Linked link' hash' prev ys := by
  induction xs generalizing ys prev with
  | nil =>
      rw [List.map_nil, eq_comm, List.map_eq_nil_iff] at hl
      rw [hl]
      exact Iff.rfl
  | cons x xs ih =>
      cases ys with
      | nil => cases hl
      | cons y ys =>
          rw [List.map_cons, List.map_cons, List.cons.injEq] at hl hh
          change link x = prev ∧ Linked link hash _ xs ↔ link' y = prev ∧ Linked link' hash' _ ys
          rw [hl.1, hh.1, ih hl.2 hh.2]

/-- Two chains that end in the same hash are equal. -/
theorem Linked.eq_of_tip_eq {xs ys : List α} (hx : Linked link hash none xs)
    (hy : Linked link hash none ys) (htip : tip hash none xs = tip hash none ys)
    (hinj : Set.InjOn hash {a | a ∈ xs ∨ a ∈ ys}) : xs = ys := by
  -- backwards along the chain: equal hashes make the last items equal, and these carry the
  -- hashes of the items before them
  induction xs using List.reverseRecOn generalizing ys with
  | nil =>
      rcases List.eq_nil_or_concat ys with rfl | ⟨ys, y, rfl⟩
      · rfl
      · rw [List.concat_eq_append, tip_concat] at htip
        cases htip
  | append_singleton xs x ih =>
      rcases List.eq_nil_or_concat ys with rfl | ⟨ys, y, rfl⟩
      · rw [tip_concat] at htip
        cases htip
      · rw [List.concat_eq_append] at *
        rw [tip_concat, tip_concat, Option.some.injEq] at htip
        have hxy : x = y := hinj (Or.inl List.mem_concat_self) (Or.inr List.mem_concat_self) htip
        rw [linked_concat] at hx hy
        have hxs : xs = ys := by
          refine ih hx.1 hy.1 ?_ (hinj.mono ?_)
          · rw [← hx.2, ← hy.2, hxy]
          · rintro a (ha | ha)
            · exact Or.inl (List.mem_append_left _ ha)
            · exact Or.inr (List.mem_append_left _ ha)
        rw [hxs, hxy]

end Koalisi.Lib.HashChain
