import Mathlib.Algebra.Order.GroupWithZero.Basic
import Mathlib.Algebra.Order.Ring.Unbundled.Basic
import Mathlib.Data.List.Basic
import Mathlib.Tactic.Ring
import Mathlib.Tactic.Tauto

/-!
# Strengths of ways

How well one point stands in for another one is a number between 0 and 1.  Along a way from
point to point the numbers are multiplied, and `closeThrough` is the strength of the best way
that leads through listed points only.  It is found by letting the points in one after the
other.

The result is the least one that is transitive at the listed points (`le_closeThrough`,
`closeThrough_trans`, `closeThrough_le`).  So it depends on which points are listed, and not
on their order or on how often they are; and it does not depend on what the points are called.
-/

namespace Koalisi.Lib

variable {α β K : Type} [CommSemiring K] [LinearOrder K]

/-- The best way through the points of a list. -/
def closeThrough (s : α → α → K) : List α → α → α → K
  | [] => s
  | c :: l => fun a b ↦ max (closeThrough s l a b) (closeThrough s l a c * closeThrough s l c b)

theorem closeThrough_cons (s : α → α → K) (c : α) (l : List α) (a b : α) :
    closeThrough s (c :: l) a b =
      max (closeThrough s l a b) (closeThrough s l a c * closeThrough s l c b) := rfl

/-- Numbers between 0 and 1. -/
structure Strengths (s : α → α → K) : Prop where
  nonneg (a b : α) : 0 ≤ s a b
  le_one (a b : α) : s a b ≤ 1

section Ordered

variable [IsOrderedRing K] {s : α → α → K} {l l' : List α} {a b c : α}

/-- The ways have strengths, too. -/
theorem Strengths.closeThrough (h : Strengths s) (l : List α) : Strengths (closeThrough s l) := by
  induction l with
  | nil => exact h
  | cons c l ih =>
      constructor
      · intro a b
        exact le_max_of_le_left (ih.nonneg a b)
      · intro a b
        refine max_le (ih.le_one a b) ?_
        exact mul_le_one₀ (ih.le_one a c) (ih.nonneg c b) (ih.le_one c b)

omit [IsOrderedRing K] in
/-- Going there directly is a way. -/
theorem le_closeThrough (s : α → α → K) (l : List α) (a b : α) : s a b ≤ closeThrough s l a b := by
  induction l with
  | nil => exact le_rfl
  | cons c l ih => exact le_max_of_le_left ih

/-- Two ways that meet in a listed point make one. -/
theorem closeThrough_trans (h : Strengths s) (hc : c ∈ l) (a b : α) :
    closeThrough s l a c * closeThrough s l c b ≤ closeThrough s l a b := by
  induction l generalizing a b c with
  | nil => cases hc
  | cons d l ih =>
      have hs := h.closeThrough l
      have hloop : ∀ a b, closeThrough s l a d * closeThrough s l d d * closeThrough s l d b ≤
          closeThrough s l a d * closeThrough s l d b := by
        intro a b
        refine mul_le_mul_of_nonneg_right ?_ (hs.nonneg d b)
        exact mul_le_of_le_one_right (hs.nonneg a d) (hs.le_one d d)
      -- no way to the new point, or from it, is better for leading through it before
      have hto : ∀ a, closeThrough s (d :: l) a d = closeThrough s l a d := fun a ↦
        max_eq_left (mul_le_of_le_one_right (hs.nonneg a d) (hs.le_one d d))
      have hfrom : ∀ b, closeThrough s (d :: l) d b = closeThrough s l d b := fun b ↦
        max_eq_left (mul_le_of_le_one_left (hs.nonneg d b) (hs.le_one d d))
      rcases List.mem_cons.mp hc with rfl | hc
      · rw [hto, hfrom]
        exact le_max_right _ _
      · have hturn : closeThrough s l d c * closeThrough s l c d ≤ 1 :=
          mul_le_one₀ (hs.le_one d c) (hs.nonneg c d) (hs.le_one c d)
        rw [closeThrough_cons s d l a c,
          max_mul_of_nonneg _ _ ((h.closeThrough (d :: l)).nonneg c b)]
        refine max_le ?_ ?_
        · rw [closeThrough_cons, mul_max_of_nonneg _ _ (hs.nonneg a c)]
          refine max_le (le_max_of_le_left (ih hc a b)) (le_max_of_le_right ?_)
          rw [← mul_assoc]
          exact mul_le_mul_of_nonneg_right (ih hc a d) (hs.nonneg d b)
        · rw [closeThrough_cons, mul_max_of_nonneg _ _ (mul_nonneg (hs.nonneg a d) (hs.nonneg d c))]
          refine max_le (le_max_of_le_right ?_) (le_max_of_le_right ?_)
          · rw [mul_assoc]
            exact mul_le_mul_of_nonneg_left (ih hc d b) (hs.nonneg a d)
          · calc closeThrough s l a d * closeThrough s l d c *
                  (closeThrough s l c d * closeThrough s l d b)
                = closeThrough s l a d * closeThrough s l d b *
                    (closeThrough s l d c * closeThrough s l c d) := by ring
              _ ≤ closeThrough s l a d * closeThrough s l d b :=
                  mul_le_of_le_one_right (mul_nonneg (hs.nonneg a d) (hs.nonneg d b)) hturn

/-- Nothing that is transitive is smaller, between points that the listed ones are among. -/
theorem closeThrough_le_on {t : α → α → K} {p : α → Prop} (h : Strengths s) (hl : ∀ c ∈ l, p c)
    (hle : ∀ a, p a → ∀ b, p b → s a b ≤ t a b)
    (ht : ∀ c ∈ l, ∀ a, p a → ∀ b, p b → t a c * t c b ≤ t a b) (a : α) (ha : p a) (b : α)
    (hb : p b) : closeThrough s l a b ≤ t a b := by
  induction l generalizing a b with
  | nil => exact hle a ha b hb
  | cons c l ih =>
      have hc := hl c List.mem_cons_self
      have hrest := ih (fun c' hc' ↦ hl c' (List.mem_cons_of_mem c hc'))
        fun c' hc' ↦ ht c' (List.mem_cons_of_mem c hc')
      refine max_le (hrest a ha b hb) ((mul_le_mul (hrest a ha c hc) (hrest c hc b hb) ?_ ?_).trans
        (ht c List.mem_cons_self a ha b hb))
      · exact (h.closeThrough l).nonneg c b
      · exact (h.nonneg a c).trans (hle a ha c hc)

/-- Nothing that is transitive is smaller. -/
theorem closeThrough_le {t : α → α → K} (h : Strengths s) (hle : ∀ a b, s a b ≤ t a b)
    (ht : ∀ c ∈ l, ∀ a b, t a c * t c b ≤ t a b) (a b : α) : closeThrough s l a b ≤ t a b :=
  closeThrough_le_on (p := fun _ ↦ True) h (fun _ _ ↦ trivial) (fun a _ b _ ↦ hle a b)
    (fun c hc a _ b _ ↦ ht c hc a b) a trivial b trivial

/-- More points make more ways. -/
theorem closeThrough_mono (h : Strengths s) (hsub : l ⊆ l') (a b : α) :
    closeThrough s l a b ≤ closeThrough s l' a b :=
  closeThrough_le h (le_closeThrough s l') (fun _ hc ↦ closeThrough_trans h (hsub hc)) a b

/-- Only which points are listed matters. -/
theorem closeThrough_congr (h : Strengths s) (hmem : ∀ c, c ∈ l ↔ c ∈ l') :
    closeThrough s l = closeThrough s l' := by
  funext a b
  exact le_antisymm (closeThrough_mono h (fun c ↦ (hmem c).mp) a b)
    (closeThrough_mono h (fun c ↦ (hmem c).mpr) a b)

omit [IsOrderedRing K] in
/-- Points under other names. -/
theorem closeThrough_map (f : β → α) (s : α → α → K) (l : List β) (a b : β) :
    closeThrough (fun a b ↦ s (f a) (f b)) l a b = closeThrough s (l.map f) (f a) (f b) := by
  induction l generalizing a b with
  | nil => rfl
  | cons c l ih => simp only [closeThrough, List.map_cons, ih]

omit [IsOrderedRing K] in
/-- Only the strengths from and to listed points matter. -/
theorem closeThrough_congr_on {t : α → α → K} {p : α → Prop} (hl : ∀ c ∈ l, p c)
    (hst : ∀ a b, p a → p b → s a b = t a b) (ha : p a) (hb : p b) :
    closeThrough s l a b = closeThrough t l a b := by
  induction l generalizing a b with
  | nil => exact hst a b ha hb
  | cons c l ih =>
      have hc := hl c List.mem_cons_self
      have hrest : ∀ {a b}, p a → p b → closeThrough s l a b = closeThrough t l a b :=
        fun ha hb ↦ ih (fun c' hc' ↦ hl c' (List.mem_cons_of_mem c hc')) ha hb
      rw [closeThrough_cons, closeThrough_cons, hrest ha hb, hrest ha hc, hrest hc hb]

/-- Two strengths whose product is full are full. -/
theorem eq_one_of_mul_eq_one {x y : K} (hx : 0 ≤ x) (hx1 : x ≤ 1) (hy : 0 ≤ y) (hy1 : y ≤ 1)
    (h : x * y = 1) : x = 1 ∧ y = 1 := by
  constructor
  · exact le_antisymm hx1 (h ▸ mul_le_of_le_one_right hx hy1)
  · exact le_antisymm hy1 (h ▸ mul_le_of_le_one_left hy hx1)

/-- A way of full strength leads along full strengths, so if these are transitive, there is a
direct one. -/
theorem closeThrough_eq_one (h : Strengths s)
    (hfull : ∀ a b c, s a c = 1 → s c b = 1 → s a b = 1) :
    closeThrough s l a b = 1 ↔ s a b = 1 := by
  constructor
  · induction l generalizing a b with
    | nil => exact id
    | cons c l ih =>
        intro hone
        have hs := h.closeThrough l
        rcases max_choice (closeThrough s l a b) (closeThrough s l a c * closeThrough s l c b) with
          hmax | hmax
        · exact ih (hmax.symm.trans hone)
        · obtain ⟨hac, hcb⟩ := eq_one_of_mul_eq_one (hs.nonneg a c) (hs.le_one a c)
            (hs.nonneg c b) (hs.le_one c b) (hmax.symm.trans hone)
          exact hfull a b c (ih hac) (ih hcb)
  · intro hone
    exact le_antisymm ((h.closeThrough l).le_one a b) (hone ▸ le_closeThrough s l a b)

section Parts

variable {p q : α → Prop} (hl : ∀ c ∈ l, q c)
  (hapart : ∀ a b, q a → q b → (p a ↔ ¬p b) → s a b = 0)

include hl hapart

omit [IsOrderedRing K] in
/-- Where there is nothing between two parts, there is no way from one to the other. -/
theorem closeThrough_apart (ha : q a) (hb : q b) (hab : p a ↔ ¬p b) :
    closeThrough s l a b = 0 := by
  induction l generalizing a b with
  | nil => exact hapart a b ha hb hab
  | cons c l ih =>
      have hc := hl c List.mem_cons_self
      have hl' : ∀ c ∈ l, q c := fun c' hc' ↦ hl c' (List.mem_cons_of_mem c hc')
      rw [closeThrough_cons, ih hl' ha hb hab]
      refine max_eq_left (le_of_eq ?_)
      by_cases hac : p a ↔ ¬p c
      · rw [ih hl' ha hc hac, zero_mul]
      · rw [ih hl' hc hb (by tauto), mul_zero]

/-- Where there is nothing between two parts, points of the other part are of no use. -/
theorem closeThrough_part [DecidablePred p] (h : Strengths s) (ha : q a) (hb : q b) (hpa : p a)
    (hpb : p b) : closeThrough s l a b = closeThrough s (l.filter p) a b := by
  induction l generalizing a b with
  | nil => rfl
  | cons c l ih =>
      have hc := hl c List.mem_cons_self
      have hl' : ∀ c ∈ l, q c := fun c' hc' ↦ hl c' (List.mem_cons_of_mem c hc')
      by_cases hpc : p c
      · have hcons : (c :: l).filter p = c :: l.filter p :=
          List.filter_cons_of_pos (decide_eq_true hpc)
        rw [hcons, closeThrough_cons, closeThrough_cons, ih hl' ha hb hpa hpb,
          ih hl' ha hc hpa hpc, ih hl' hc hb hpc hpb]
      · have hcons : (c :: l).filter p = l.filter p :=
          List.filter_cons_of_neg fun htrue ↦ hpc (of_decide_eq_true htrue)
        have haway : closeThrough s l a c = 0 :=
          closeThrough_apart hl' hapart ha hc (by tauto)
        rw [hcons, closeThrough_cons, haway, zero_mul, ih hl' ha hb hpa hpb]
        exact max_eq_left ((h.closeThrough _).nonneg a b)

end Parts

end Ordered

end Koalisi.Lib
