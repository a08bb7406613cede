import Mathlib.LinearAlgebra.Matrix.NonsingularInverse
import Mathlib.LinearAlgebra.Matrix.SchurComplement

/-!
# The sum of the entries of an inverse

The rows of the inverse of a matrix add up to its *weights*, the solution of `A w = 1`, and
its columns to its *coweights*, the solution of `v A = 1`.  The sum of all entries is that of
the weights, and that of the coweights.

Under a larger matrix the sum changes by what the new points add of their own, less what the
entries among the old points have grown (`gain_eq`).
-/

namespace Koalisi.Lib

open Matrix

variable {α ι κ K : Type} [Field K] [DecidableEq K]
variable [Fintype ι] [DecidableEq ι] [Fintype κ] [DecidableEq κ]

/-- The sum of the entries of the inverse, if there is one. -/
noncomputable def inverseSum (A : Matrix ι ι K) : Option K :=
  if A.det = 0 then none else some (∑ i, ∑ j, A⁻¹ i j)

section InverseSum

variable {A B : Matrix ι ι K} {m : K}

theorem inverseSum_eq_some :
    inverseSum A = some m ↔ IsUnit A.det ∧ ∑ i, ∑ j, A⁻¹ i j = m := by
  unfold inverseSum
  by_cases hdet : A.det = 0
  · simp [hdet]
  · simp [hdet]

theorem inverseSum_eq_none : inverseSum A = none ↔ A.det = 0 := by
  unfold inverseSum
  by_cases hdet : A.det = 0
  · simp [hdet]
  · simp [hdet]

/-- An inverse that is known. -/
theorem inverseSum_of_mul_eq_one (h : A * B = 1) : inverseSum A = some (∑ i, ∑ j, B i j) := by
  rw [inverseSum_eq_some, inv_eq_right_inv h]
  exact ⟨isUnit_det_of_right_inverse h, rfl⟩

/-- The order of the rows does not matter. -/
theorem inverseSum_submatrix (A : Matrix κ κ K) (e : ι ≃ κ) :
    inverseSum (A.submatrix e e) = inverseSum A := by
  unfold inverseSum
  rw [det_submatrix_equiv_self, inv_submatrix_equiv]
  have hsum : ∑ i, ∑ j, (A⁻¹.submatrix e e) i j = ∑ i, ∑ j, A⁻¹ i j := by
    simp only [submatrix_apply]
    rw [← Equiv.sum_comp e]
    exact Finset.sum_congr rfl fun i _ ↦ Equiv.sum_comp e (A⁻¹ (e i))
  rw [hsum]

/-- Two blocks with nothing between them. -/
theorem inverseSum_fromBlocks (A : Matrix ι ι K) (D : Matrix κ κ K) :
    inverseSum (fromBlocks A 0 0 D) =
      (inverseSum A).bind fun m ↦ (inverseSum D).map fun m' ↦ m + m' := by
  cases hA : inverseSum A with
  | none =>
      rw [inverseSum_eq_none] at hA
      rw [Option.bind_none, inverseSum_eq_none, det_fromBlocks_zero₂₁, hA, zero_mul]
  | some m =>
      rw [Option.bind_some]
      cases hD : inverseSum D with
      | none =>
          rw [inverseSum_eq_none] at hD
          rw [Option.map_none, inverseSum_eq_none, det_fromBlocks_zero₂₁, hD, mul_zero]
      | some m' =>
          obtain ⟨hdet, rfl⟩ := inverseSum_eq_some.mp hA
          obtain ⟨hdet', rfl⟩ := inverseSum_eq_some.mp hD
          have hmul : fromBlocks A 0 0 D * fromBlocks A⁻¹ 0 0 D⁻¹ = 1 := by
            rw [fromBlocks_multiply, mul_nonsing_inv A hdet, mul_nonsing_inv D hdet']
            simp
          rw [inverseSum_of_mul_eq_one hmul, Option.map_some]
          simp [Fintype.sum_sum_type]

end InverseSum

/-! ## Weights -/

/-- The sums of the rows of the inverse. -/
noncomputable def weights (A : Matrix ι ι K) (i : ι) : K := ∑ j, A⁻¹ i j

/-- The sums of the columns of the inverse. -/
noncomputable def coweights (A : Matrix ι ι K) (j : ι) : K := ∑ i, A⁻¹ i j

section Weights

variable {A : Matrix ι ι K} {m : K}

/-- The weights that a point sees add up to one. -/
theorem sum_mul_weights (h : inverseSum A = some m) (i : ι) : ∑ j, A i j * weights A j = 1 := by
  obtain ⟨hdet, -⟩ := inverseSum_eq_some.mp h
  calc ∑ j, A i j * weights A j = ∑ k, (A * A⁻¹) i k := by
        simp only [weights, Finset.mul_sum, mul_apply]
        exact Finset.sum_comm
    _ = 1 := by
        rw [mul_nonsing_inv A hdet]
        simp [one_apply]

/-- The coweights that see a point add up to one. -/
theorem sum_coweights_mul (h : inverseSum A = some m) (j : ι) : ∑ i, coweights A i * A i j = 1 := by
  obtain ⟨hdet, -⟩ := inverseSum_eq_some.mp h
  calc ∑ i, coweights A i * A i j = ∑ k, (A⁻¹ * A) k j := by
        simp only [coweights, Finset.sum_mul, mul_apply]
        exact Finset.sum_comm
    _ = 1 := by
        rw [nonsing_inv_mul A hdet]
        simp [one_apply]

theorem sum_weights (h : inverseSum A = some m) : ∑ i, weights A i = m :=
  (inverseSum_eq_some.mp h).2

theorem sum_coweights (h : inverseSum A = some m) : ∑ j, coweights A j = m := by
  rw [← (inverseSum_eq_some.mp h).2]
  exact Finset.sum_comm

end Weights

/-! ## More points -/

omit [DecidableEq K] in
/-- The coweights of the larger set see the weights of the smaller one. -/
theorem sum_mul_of_coweights {S T : Finset α} (hsub : S ⊆ T) {z' : α → α → K} {w v : α → K}
    (hv : ∀ b ∈ T, ∑ a ∈ T, v a * z' a b = 1) :
    ∑ a ∈ T, v a * ∑ b ∈ S, z' a b * w b = ∑ b ∈ S, w b := by
  symm
  calc ∑ b ∈ S, w b = ∑ b ∈ S, (∑ a ∈ T, v a * z' a b) * w b :=
        Finset.sum_congr rfl fun b hb ↦ by rw [hv b (hsub hb), one_mul]
    _ = ∑ a ∈ T, v a * ∑ b ∈ S, z' a b * w b := by
        simp only [Finset.sum_mul, Finset.mul_sum, mul_assoc]
        exact Finset.sum_comm

omit [DecidableEq K] in
/-- What the new points add of their own, as the old ones see them, less what the entries among
the old ones have grown. -/
theorem gain_eq [DecidableEq α] {S T : Finset α} (hsub : S ⊆ T) {z z' : α → α → K} {w v : α → K}
    (hw : ∀ a ∈ S, ∑ b ∈ S, z a b * w b = 1) (hv : ∀ b ∈ T, ∑ a ∈ T, v a * z' a b = 1) :
    ∑ a ∈ T, v a - ∑ b ∈ S, w b =
      ∑ a ∈ T \ S, v a * (1 - ∑ b ∈ S, z' a b * w b) -
        ∑ a ∈ S, ∑ b ∈ S, v a * (z' a b - z a b) * w b := by
  have hgrown : ∀ a ∈ S, ∑ b ∈ S, v a * (z' a b - z a b) * w b =
      -(v a * (1 - ∑ b ∈ S, z' a b * w b)) := by
    intro a ha
    calc ∑ b ∈ S, v a * (z' a b - z a b) * w b
        = v a * (∑ b ∈ S, z' a b * w b - ∑ b ∈ S, z a b * w b) := by
          rw [← Finset.sum_sub_distrib, Finset.mul_sum]
          exact Finset.sum_congr rfl fun b _ ↦ by ring
      _ = -(v a * (1 - ∑ b ∈ S, z' a b * w b)) := by
          rw [hw a ha]
          ring
  rw [Finset.sum_congr rfl hgrown, Finset.sum_neg_distrib, sub_neg_eq_add,
    Finset.sum_sdiff hsub, ← sum_mul_of_coweights hsub hv, ← Finset.sum_sub_distrib]
  exact Finset.sum_congr rfl fun a _ ↦ by ring

end Koalisi.Lib
