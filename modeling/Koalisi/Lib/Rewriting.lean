import Mathlib.Algebra.BigOperators.Group.List.Basic
import Mathlib.Algebra.GroupWithZero.Nat
import Mathlib.Data.List.Perm.Basic

/-!
# Replacing items by others

A replacement takes some items out from among others and puts different ones in their place; the
order of items does not matter.  So what it does to the whole is what it does to the items that it
takes and puts: to the sum of their weights, and to what they show.

A derivation is one labelled step after another.  If each step makes a number smaller, there are no
more steps than the number allows.
-/

namespace Koalisi.Lib

variable {α β σ ι : Type*}

/-- The items on the left are replaced by those on the right. -/
structure Replacement (α : Type*) where
  left : List α
  right : List α

namespace Replacement

/-- One occurrence of the left side is replaced, and the rest stays. -/
def Rewrites (r : Replacement α) (l l' : List α) : Prop :=
  ∃ rest, l.Perm (r.left ++ rest) ∧ l'.Perm (r.right ++ rest)

variable {r r' : Replacement α} {l l' : List α}

/-- The order of the items does not matter on either side. -/
theorem Rewrites.of_perm (h : r.Rewrites l l') (hleft : r.left.Perm r'.left)
    (hright : r.right.Perm r'.right) : r'.Rewrites l l' := by
  obtain ⟨rest, hl, hl'⟩ := h
  exact ⟨rest, hl.trans (hleft.append_right rest), hl'.trans (hright.append_right rest)⟩

theorem Rewrites.left_subset (h : r.Rewrites l l') : r.left ⊆ l := by
  obtain ⟨rest, hl, -⟩ := h
  exact fun a ha ↦ hl.mem_iff.mpr (List.mem_append_left _ ha)

theorem Rewrites.right_subset (h : r.Rewrites l l') : r.right ⊆ l' := by
  obtain ⟨rest, -, hl'⟩ := h
  exact fun a ha ↦ hl'.mem_iff.mpr (List.mem_append_left _ ha)

/-- The weight of all items changes by as much as that of the replaced ones. -/
theorem Rewrites.sum_add (h : r.Rewrites l l') (weight : α → Nat) :
    (l'.map weight).sum + (r.left.map weight).sum =
      (l.map weight).sum + (r.right.map weight).sum := by
  obtain ⟨rest, hl, hl'⟩ := h
  rw [(hl.map weight).sum_eq, (hl'.map weight).sum_eq, List.map_append, List.map_append,
    List.sum_append, List.sum_append]
  omega

theorem Rewrites.sum_lt (h : r.Rewrites l l') {weight : α → Nat}
    (hsides : (r.right.map weight).sum < (r.left.map weight).sum) :
    (l'.map weight).sum < (l.map weight).sum := by
  have hsum := h.sum_add weight
  omega

theorem Rewrites.sum_le (h : r.Rewrites l l') {weight : α → Nat}
    (hsides : (r.right.map weight).sum ≤ (r.left.map weight).sum) :
    (l'.map weight).sum ≤ (l.map weight).sum := by
  have hsum := h.sum_add weight
  omega

/-- If both sides show the same, the wholes do. -/
theorem Rewrites.mem_filterMap_iff (h : r.Rewrites l l') {f : α → Option β}
    (hsides : ∀ b, b ∈ r.right.filterMap f ↔ b ∈ r.left.filterMap f) (b : β) :
    b ∈ l'.filterMap f ↔ b ∈ l.filterMap f := by
  obtain ⟨rest, hl, hl'⟩ := h
  rw [(hl.filterMap f).mem_iff, (hl'.filterMap f).mem_iff, List.filterMap_append,
    List.filterMap_append, List.mem_append, List.mem_append, hsides]

/-- What the sides show is replaced in what is shown. -/
theorem Rewrites.filterMap (h : r.Rewrites l l') (f : α → Option β) :
    (Replacement.mk (r.left.filterMap f) (r.right.filterMap f)).Rewrites
      (l.filterMap f) (l'.filterMap f) := by
  obtain ⟨rest, hl, hl'⟩ := h
  refine ⟨rest.filterMap f, ?_, ?_⟩
  · rw [← List.filterMap_append]
    exact hl.filterMap f
  · rw [← List.filterMap_append]
    exact hl'.filterMap f

theorem Rewrites.count_add [DecidableEq α] (h : r.Rewrites l l') (a : α) :
    l'.count a + r.left.count a = l.count a + r.right.count a := by
  obtain ⟨rest, hl, hl'⟩ := h
  rw [hl.count_eq, hl'.count_eq, List.count_append, List.count_append]
  omega

theorem Rewrites.length_add (h : r.Rewrites l l') :
    l'.length + r.left.length = l.length + r.right.length := by
  obtain ⟨rest, hl, hl'⟩ := h
  rw [hl.length_eq, hl'.length_eq, List.length_append, List.length_append]
  omega

end Replacement

/-! ## Derivations -/

/-- One step after another, with their labels. -/
inductive Derives (step : ι → σ → σ → Prop) : σ → List ι → σ → Prop where
  | refl (s : σ) : Derives step s [] s
  | cons {i : ι} {is : List ι} {s s' s'' : σ} :
      step i s s' → Derives step s' is s'' → Derives step s (i :: is) s''

namespace Derives

variable {step : ι → σ → σ → Prop} {measure : σ → Nat} {s s' : σ} {is : List ι}

/-- If each step makes the measure smaller, the steps take at least one each from it. -/
theorem measure_add_length_le (hstep : ∀ i s s', step i s s' → measure s' < measure s)
    (h : Derives step s is s') : measure s' + is.length ≤ measure s := by
  induction h with
  | refl s => exact Nat.le_refl _
  | cons hs _ ih =>
      have hlt := hstep _ _ _ hs
      rw [List.length_cons]
      omega

/-- If every step leaves something, so do the steps together. -/
theorem measure_pos (hpos : ∀ i s s', step i s s' → 0 < measure s') (h : Derives step s is s')
    (hne : is ≠ []) : 0 < measure s' := by
  induction h with
  | refl s => exact absurd rfl hne
  | @cons i is s s' s'' hs htail ih =>
      cases htail with
      | refl => exact hpos _ _ _ hs
      | cons _ _ => exact ih (List.cons_ne_nil _ _)

theorem length_lt (measure : σ → Nat) (hstep : ∀ i s s', step i s s' → measure s' < measure s)
    (hpos : ∀ i s s', step i s s' → 0 < measure s') (h : Derives step s is s') (hne : is ≠ []) :
    is.length < measure s := by
  have hle := h.measure_add_length_le hstep
  have hleft := h.measure_pos hpos hne
  omega

/-- What the steps take from a quantity and what they put to it make up for its change. -/
theorem balance (quantity : σ → Nat) {taken put : ι → Nat}
    (hstep : ∀ i s s', step i s s' → quantity s' + taken i = quantity s + put i)
    (h : Derives step s is s') :
    quantity s' + (is.map taken).sum = quantity s + (is.map put).sum := by
  induction h with
  | refl s => rfl
  | cons hs _ ih =>
      have hfirst := hstep _ _ _ hs
      rw [List.map_cons, List.map_cons, List.sum_cons, List.sum_cons]
      omega

/-- What no step changes stays as it was. -/
theorem unchanged {f : σ → β} (h : Derives step s is s')
    (hstep : ∀ i ∈ is, ∀ s s', step i s s' → f s' = f s) : f s' = f s := by
  induction h with
  | refl s => rfl
  | @cons i is _ _ _ hs _ ih =>
      rw [ih fun j hj ↦ hstep j (List.mem_cons_of_mem _ hj)]
      exact hstep i List.mem_cons_self _ _ hs

/-- A derivation seen through a function. -/
theorem map {τ : Type*} {step' : ι → τ → τ → Prop} (f : σ → τ)
    (hstep : ∀ i s s', step i s s' → step' i (f s) (f s')) (h : Derives step s is s') :
    Derives step' (f s) is (f s') := by
  induction h with
  | refl s => exact .refl (f s)
  | cons hs _ ih => exact .cons (hstep _ _ _ hs) ih

/-- Each step has another name, and so has the derivation. -/
theorem relabel {κ : Type*} {step' : κ → σ → σ → Prop} {names : ι → κ → Prop}
    (hstep : ∀ i s s', step i s s' → ∃ k, names i k ∧ step' k s s') (h : Derives step s is s') :
    ∃ ks, List.Forall₂ names is ks ∧ Derives step' s ks s' := by
  induction h with
  | refl s => exact ⟨[], .nil, .refl s⟩
  | cons hs _ ih =>
      obtain ⟨k, hk, hs'⟩ := hstep _ _ _ hs
      obtain ⟨ks, hks, hrest⟩ := ih
      exact ⟨k :: ks, .cons hk hks, .cons hs' hrest⟩

end Derives

end Koalisi.Lib
