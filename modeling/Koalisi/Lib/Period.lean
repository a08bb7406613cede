import Koalisi.Lib.SplitMix

/-!
# The period of the generator

The constant that the counter advances by is odd, so `2 ^ 64` draws see every counter.  Mixing
can be undone: a word that was joined with its own shift gets its upper bits back from above,
and an odd factor has an inverse.  So every number is drawn among the first `2 ^ 64`, whatever
the generator started from (`exists_nth`).
-/

namespace Koalisi.Lib.SplitMix64

/-! ## Mixing can be undone -/

/-- What the counter advances by. -/
def gamma : UInt64 := 0x9E3779B97F4A7C15

/-- The number that is made of a counter. -/
def mix (state : UInt64) : UInt64 :=
  let z := (state ^^^ (state >>> 30)) * 0xBF58476D1CE4E5B9
  let z := (z ^^^ (z >>> 27)) * 0x94D049BB133111EB
  z ^^^ (z >>> 31)

theorem shiftRight_thrice {k : UInt64} (hk : k.toNat < 64) (hwide : 64 ≤ 3 * k.toNat)
    (y : UInt64) : y >>> k >>> k >>> k = 0 := by
  refine UInt64.toNat.inj ?_
  rw [UInt64.toNat_shiftRight, UInt64.toNat_shiftRight, UInt64.toNat_shiftRight,
    Nat.mod_eq_of_lt hk, ← Nat.shiftRight_add, ← Nat.shiftRight_add]
  refine Nat.shiftRight_eq_zero _ _ (Nat.lt_of_lt_of_le y.toNat_lt ?_)
  exact Nat.pow_le_pow_right (by decide) (by omega)

theorem xorShift_surjective {k : UInt64} (hk : k.toNat < 64) (hwide : 64 ≤ 3 * k.toNat) :
    Function.Surjective fun x : UInt64 ↦ x ^^^ x >>> k := by
  intro y
  refine ⟨y ^^^ y >>> k ^^^ y >>> k >>> k, ?_⟩
  dsimp only
  rw [UInt64.shiftRight_xor, UInt64.shiftRight_xor, shiftRight_thrice hk hwide, UInt64.xor_zero,
    UInt64.xor_assoc y, UInt64.xor_assoc y, UInt64.xor_self, UInt64.xor_zero]

theorem mul_surjective {m n : UInt64} (h : n * m = 1) :
    Function.Surjective fun x : UInt64 ↦ x * m := by
  intro y
  refine ⟨y * n, ?_⟩
  dsimp only
  rw [UInt64.mul_assoc, h, UInt64.mul_one]

theorem mix_surjective : Function.Surjective mix := by
  intro y
  obtain ⟨z, rfl⟩ := xorShift_surjective (k := 31) (by decide) (by decide) y
  obtain ⟨z, rfl⟩ :=
    mul_surjective (m := 0x94D049BB133111EB) (n := 0x319642B2D24D8EC3) (by decide) z
  obtain ⟨z, rfl⟩ := xorShift_surjective (k := 27) (by decide) (by decide) z
  obtain ⟨z, rfl⟩ :=
    mul_surjective (m := 0xBF58476D1CE4E5B9) (n := 0x96DE1B173F119089) (by decide) z
  obtain ⟨state, rfl⟩ := xorShift_surjective (k := 30) (by decide) (by decide) z
  exact ⟨state, rfl⟩

/-! ## All numbers are drawn -/

/-- The generator after a draw. -/
def next (rng : SplitMix64) : SplitMix64 := ⟨rng.state + gamma⟩

/-- The number that is drawn after so many others. -/
def nth (rng : SplitMix64) (i : Nat) : UInt64 := mix (rng.state + (UInt64.ofNat i + 1) * gamma)

theorem nextU64_run (rng : SplitMix64) : nextU64.run rng = some (rng.nth 0, rng.next) := by
  have hfirst : (UInt64.ofNat 0 + 1) * gamma = gamma := by decide
  rw [nth, hfirst]
  rfl

theorem nth_next (rng : SplitMix64) (i : Nat) : rng.next.nth i = rng.nth (i + 1) := by
  have hstep : (UInt64.ofNat (i + 1) + 1) * gamma = gamma + (UInt64.ofNat i + 1) * gamma := by
    rw [UInt64.ofNat_add, UInt64.add_mul, UInt64.add_comm gamma]
    exact congrArg _ (UInt64.one_mul gamma)
  rw [nth, nth, next, hstep, UInt64.add_assoc]

theorem exists_nth (rng : SplitMix64) (y : UInt64) : ∃ i < 2 ^ 64, rng.nth i = y := by
  obtain ⟨state, rfl⟩ := mix_surjective y
  -- how often the constant is added between the two counters
  have hinverse : (0xF1DE83E19937733D : UInt64) * gamma = 1 := by decide
  refine ⟨((state - rng.state) * 0xF1DE83E19937733D - 1).toNat, UInt64.toNat_lt _, ?_⟩
  rw [nth, UInt64.ofNat_toNat, UInt64.sub_add_cancel, UInt64.mul_assoc, hinverse, UInt64.mul_one,
    UInt64.add_comm, UInt64.sub_add_cancel]

end Koalisi.Lib.SplitMix64
