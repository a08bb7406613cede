import Mathlib.Algebra.Order.Field.Basic
import Mathlib.Tactic.Linarith
import Mathlib.Tactic.Ring

/-!
# Comparisons with a value that is nearly right

A value is near to another one if it is right up to a small part of it, or of one where it
is small.  Away from a threshold, in a band that is wide enough for the error, a comparison
of a difference comes out the same for both values.
-/

namespace Koalisi.Lib

variable {K : Type} [Field K] [LinearOrder K] [IsStrictOrderedRing K]

/-- The value `w` is `m` up to an error relative to it. -/
def Near (ε m w : K) : Prop := |w - m| ≤ ε * max |m| 1

/-- How far apart the values are, by the one that is known. -/
theorem Near.abs_sub_le {ε m w : K} (h : Near ε m w) (hε : 0 ≤ ε) (hhalf : 2 * ε ≤ 1) :
    |w - m| ≤ 2 * ε * max |w| 1 := by
  rw [Near] at h
  have hwide : ε ≤ ε * max |w| 1 := le_mul_of_one_le_right hε (le_max_right _ _)
  rcases le_total |m| 1 with hm | hm
  · rw [max_eq_right hm] at h
    linarith
  · rw [max_eq_left hm] at h
    have hle : |m| ≤ |w| + |w - m| := by
      have := abs_sub_abs_le_abs_sub m w
      rw [abs_sub_comm] at this
      linarith
    have htwice : ε * |m| ≤ |m| / 2 := by
      have := mul_le_mul_of_nonneg_right hhalf (abs_nonneg m)
      linarith
    have hmw : |m| ≤ 2 * max |w| 1 := by
      have := le_max_left |w| 1
      linarith
    calc |w - m| ≤ ε * |m| := h
      _ ≤ ε * (2 * max |w| 1) := mul_le_mul_of_nonneg_left hmw hε
      _ = 2 * ε * max |w| 1 := by ring

/-- Outside the band the error is smaller than the distance to the threshold. -/
theorem Near.abs_sub_lt_of_far {ε band m w b t : K} (h : Near ε m w) (hε : 0 ≤ ε)
    (hhalf : 2 * ε ≤ 1) (hband : 2 * ε ≤ band)
    (hfar : band * max (max |w| |b|) 1 < |w - b - t|) : |w - m| < |w - b - t| := by
  have hscale : max |w| 1 ≤ max (max |w| |b|) 1 := max_le_max_right 1 (le_max_left _ _)
  have hpos : 0 ≤ max |w| 1 := le_trans zero_le_one (le_max_right _ _)
  calc |w - m| ≤ 2 * ε * max |w| 1 := h.abs_sub_le hε hhalf
    _ ≤ band * max (max |w| |b|) 1 :=
      mul_le_mul hband hscale hpos (le_trans (by linarith) hband)
    _ < |w - b - t| := hfar

/-- Outside the band a margin is on the side of the threshold where the exact one is. -/
theorem sides_of_abs_sub_lt {m w b t : K} (h : |w - m| < |w - b - t|) :
    (t < w - b ↔ t < m - b) ∧ (w - b < t ↔ m - b < t) := by
  have hsub := abs_lt.mp h
  rcases le_total 0 (w - b - t) with hside | hside
  · rw [abs_of_nonneg hside] at hsub
    refine ⟨⟨?_, ?_⟩, ?_, ?_⟩ <;> intro <;> linarith
  · rw [abs_of_nonpos hside] at hsub
    refine ⟨⟨?_, ?_⟩, ?_, ?_⟩ <;> intro <;> linarith

end Koalisi.Lib
