import Mathlib.Algebra.Group.Nat.Defs
import Koalisi.Lib.Yields

/-!
# The SplitMix64 generator

A counter that advances by a constant and is mixed to give a number.  Drawing is a
computation on the generator that may also get stuck, as an index out of bounds does.
-/

namespace Koalisi.Lib

/-- The generator is its counter. -/
structure SplitMix64 where
  state : UInt64
deriving DecidableEq, Repr

/-- A computation that draws numbers. -/
abbrev Draw (α : Type) := StateT SplitMix64 Option α

namespace SplitMix64

/-- Advance the counter and mix it. -/
def nextU64 : Draw UInt64 := fun rng ↦
  let state := rng.state + 0x9E3779B97F4A7C15
  let z := (state ^^^ (state >>> 30)) * 0xBF58476D1CE4E5B9
  let z := (z ^^^ (z >>> 27)) * 0x94D049BB133111EB
  some (z ^^^ (z >>> 31), ⟨state⟩)

/-- The top 53 bits of a draw as a fraction. -/
def nextUnit (P : Type) [NatCast P] [Div P] : Draw P := do
  let u ← nextU64
  return ((u >>> 11).toNat : P) / ((2 ^ 53 : Nat) : P)

/-- A number below a bound; there is none below zero. -/
def genIndex (bound : Nat) : Draw Nat := do
  let u ← nextU64
  if bound = 0 then StateT.lift none else return u.toNat % bound

theorem nextU64_yields : Yields nextU64 fun _ ↦ True := fun _ ↦ ⟨_, _, rfl, trivial⟩

theorem nextUnit_yields (P : Type) [NatCast P] [Div P] : Yields (nextUnit P) fun _ ↦ True :=
  nextU64_yields.bind fun _ _ ↦ Yields.pure trivial

theorem genIndex_yields {bound : Nat} (h : 0 < bound) : Yields (genIndex bound) (· < bound) := by
  refine nextU64_yields.bind fun u _ ↦ ?_
  rw [if_neg (Nat.ne_of_gt h)]
  exact Yields.pure (Nat.mod_lt _ h)

end SplitMix64

end Koalisi.Lib
