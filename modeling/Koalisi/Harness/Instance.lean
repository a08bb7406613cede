import Koalisi.Algorithms.Population
import Koalisi.Harness.Workflow
import Koalisi.Lib.Masks
import Koalisi.Lib.Returns

/-!
# Drawing flat instances

A specification gives ranges; a seed draws the agents and the tasks from them.  All draws
are made on one generator, one after the other.

A mask with a number of distinct bits is drawn by rejection: bits are drawn until enough of
them are held.  The generator repeats itself after `2 ^ 64` draws, and a loop that has not
ended by then has seen every bit that it will ever see; it is cut off there.
-/

namespace Koalisi.Harness

open Koalisi.Lib Koalisi.Lib.Masks
open Koalisi.Topology (U64)

/-! ## Structured draws -/

/-- A number below a bound. -/
def below (bound : UInt64) : Draw UInt64 := do
  let u ← SplitMix64.nextU64
  if bound = 0 then StateT.lift none else return u % bound

/-- A random order of the first `n` numbers. -/
def permutation (n : Nat) : Draw (List Nat) := Algorithms.shuffle n

/-- Draw bits until enough are held. -/
def hold (k : Nat) (universeBits : UInt64) : Nat → UInt32 → Draw UInt32
  | 0, held => if k ≤ countOnes held then return held else StateT.lift none
  | fuel + 1, held =>
      if k ≤ countOnes held then return held else do
        let b ← below universeBits
        hold k universeBits fuel (held ||| 1 <<< b.toUInt32)

/-- A mask of so many distinct bits. -/
def distinctBits (k universeBits : UInt32) : Draw UInt32 :=
  if k ≤ universeBits ∧ universeBits ≤ 32 then hold k.toNat universeBits.toUInt64 (2 ^ 64) 0
  else StateT.lift none

/-- Both ends belong to the range. -/
structure RangeInclusive (α : Type) where
  start : α
  stop : α
deriving DecidableEq, Repr

/-- A number of a range that is not empty. -/
def drawIn (start stop : UInt64) : Draw UInt64 :=
  -- the width of the full range does not fit
  if start ≤ stop then do return start + (← below (stop - start + 1)) else StateT.lift none

/-! ## Instances -/

/-- The ranges that an instance is drawn from. -/
structure InstanceSpec where
  universeBits : UInt32
  pool : RangeInclusive UInt64
  capsPerAgent : RangeInclusive UInt32
  trust : RangeInclusive UInt32
  tasks : Nat
  requiredBits : RangeInclusive UInt32
deriving DecidableEq, Repr

/-- A task: the required bits, and the order of arrival. -/
structure Task where
  required : UInt32
  arrival : List Nat
deriving DecidableEq, Repr

/-- An instance: a pool of agents and a list of tasks. -/
structure Instance where
  seed : U64
  agents : List CapabilityAgent
  tasks : List Task
deriving DecidableEq, Repr

/-- A number of a range of 32-bit numbers. -/
def RangeInclusive.draw (range : RangeInclusive UInt32) : Draw UInt32 := do
  return (← drawIn range.start.toUInt64 range.stop.toUInt64).toUInt32

namespace InstanceSpec

/-- The required bits of one task. -/
def drawRequired (spec : InstanceSpec) : Draw UInt32 := do
  let r ← spec.requiredBits.draw
  distinctBits r spec.universeBits

/-- One agent. -/
def drawAgent (spec : InstanceSpec) (id : Nat) : Draw CapabilityAgent := do
  let k ← spec.capsPerAgent.draw
  let mask ← distinctBits k spec.universeBits
  let trust ← spec.trust.draw
  return { id, capabilities := mask, trust }

/-- One task of a pool of `n` agents. -/
def drawTask (spec : InstanceSpec) (n : Nat) : Draw Task := do
  let required ← spec.drawRequired
  let arrival ← permutation n
  return { required, arrival }

/-- The pool, and then the tasks. -/
def draw (spec : InstanceSpec) : Draw (List CapabilityAgent × List Task) := do
  let n ← drawIn spec.pool.start spec.pool.stop
  let agents ← (List.range n.toNat).mapM spec.drawAgent
  let tasks ← (List.range spec.tasks).mapM fun _ ↦ spec.drawTask n.toNat
  return (agents, tasks)

/-- The instance of a seed. -/
def generate (spec : InstanceSpec) (seed : U64) : Option Instance := do
  let ((agents, tasks), _) ← spec.draw.run ⟨UInt64.ofNat seed⟩
  return { seed, agents, tasks }

end InstanceSpec

/-! ## What is drawn -/

theorem returns_stuck {α : Type} (P : α → Prop) : Returns (StateT.lift none : Draw α) P :=
  fun _ _ _ h ↦ absurd h.symm (Option.some_ne_none _)

theorem below_returns (bound : UInt64) : Returns (below bound) (·.toNat < bound.toNat) := by
  refine (Returns.any _).bind fun u _ ↦ ?_
  by_cases hbound : bound = 0
  · rw [if_pos hbound]
    exact returns_stuck _
  · rw [if_neg hbound]
    refine Returns.pure ?_
    rw [UInt64.toNat_mod]
    exact Nat.mod_lt _ (Nat.pos_of_ne_zero fun h ↦ hbound (UInt64.toNat.inj h))

/-- A mask of at least `k` bits, all of a universe. -/
structure Bits (k universeBits : Nat) (mask : UInt32) : Prop where
  enough : k ≤ countOnes mask
  lt : ∀ b, Holds mask b → b < universeBits

theorem hold_returns {k : Nat} {universeBits : UInt64} (hle : universeBits.toNat ≤ 32) {fuel : Nat}
    {held : UInt32} (hheld : ∀ b, Holds held b → b < universeBits.toNat) :
    Returns (hold k universeBits fuel held) (Bits k universeBits.toNat) := by
  induction fuel generalizing held with
  | zero =>
      rw [hold]
      by_cases hk : k ≤ countOnes held
      · rw [if_pos hk]
        exact Returns.pure ⟨hk, hheld⟩
      · rw [if_neg hk]
        exact returns_stuck _
  | succ fuel ih =>
      rw [hold]
      by_cases hk : k ≤ countOnes held
      · rw [if_pos hk]
        exact Returns.pure ⟨hk, hheld⟩
      · rw [if_neg hk]
        refine (below_returns universeBits).bind fun bit hbit ↦ ih fun b hb ↦ ?_
        have hbit' : bit.toUInt32.toNat = bit.toNat := by
          rw [UInt64.toNat_toUInt32]
          exact Nat.mod_eq_of_lt (by omega)
        rw [holds_or, Bool.or_eq_true] at hb
        rcases hb with hb | hb
        · exact hheld b hb
        · rw [holds_single (by omega), decide_eq_true_eq, hbit'] at hb
          omega

theorem distinctBits_returns (k universeBits : UInt32) :
    Returns (distinctBits k universeBits) fun mask ↦
      Bits k.toNat universeBits.toNat mask ∧ universeBits.toNat ≤ 32 := by
  unfold distinctBits
  by_cases h : k ≤ universeBits ∧ universeBits ≤ 32
  · rw [if_pos h]
    have hle : universeBits.toNat ≤ 32 := UInt32.le_iff_toNat_le.mp h.2
    refine (hold_returns ?_ fun b hb ↦ ?_).imp fun mask hmask ↦ ⟨?_, hle⟩
    · exact hle
    · rw [holds_zero] at hb
      cases hb
    · exact hmask
  · rw [if_neg h]
    exact returns_stuck _

theorem drawIn_returns (start stop : UInt64) :
    Returns (drawIn start stop) fun x ↦ start.toNat ≤ x.toNat ∧ x.toNat ≤ stop.toNat := by
  unfold drawIn
  by_cases hle : start ≤ stop
  · rw [if_pos hle]
    refine (below_returns _).bind fun x hx ↦ Returns.pure ?_
    have hle' : start.toNat ≤ stop.toNat := UInt64.le_iff_toNat_le.mp hle
    have hstop := stop.toNat_lt
    rw [UInt64.toNat_add, UInt64.toNat_sub_of_le _ _ hle] at hx
    have hone : (1 : UInt64).toNat = 1 := rfl
    rw [hone] at hx
    have hwidth := Nat.mod_le (stop.toNat - start.toNat + 1) (2 ^ 64)
    have hsum : start.toNat + x.toNat ≤ stop.toNat := by omega
    rw [UInt64.toNat_add, Nat.mod_eq_of_lt (by omega)]
    omega
  · rw [if_neg hle]
    exact returns_stuck _

theorem RangeInclusive.draw_returns (range : RangeInclusive UInt32) :
    Returns range.draw fun x ↦ range.start.toNat ≤ x.toNat ∧ x.toNat ≤ range.stop.toNat := by
  refine (drawIn_returns _ _).bind fun x hx ↦ Returns.pure ?_
  have hstop := range.stop.toNat_lt
  have hx' : x.toNat ≤ range.stop.toNat := hx.2
  rw [UInt64.toNat_toUInt32, Nat.mod_eq_of_lt (by omega)]
  exact hx

theorem permutation_returns (n : Nat) : Returns (permutation n) (·.Perm (List.range n)) := by
  intro s a t h
  obtain ⟨perm, s', hrun, hperm⟩ := Algorithms.shuffle_yields n s
  cases (show permutation n s = some (perm, s') from hrun).symm.trans h
  exact hperm

namespace InstanceSpec

variable (spec : InstanceSpec)

theorem drawRequired_returns :
    Returns spec.drawRequired fun mask ↦
      Bits spec.requiredBits.start.toNat spec.universeBits.toNat mask ∧
        spec.universeBits.toNat ≤ 32 := by
  refine spec.requiredBits.draw_returns.bind fun r hr ↦ ?_
  exact (distinctBits_returns r spec.universeBits).imp fun mask h ↦
    ⟨⟨hr.1.trans h.1.enough, h.1.lt⟩, h.2⟩

/-- A task of the specification, for a pool of so many agents. -/
structure Drawn (n : Nat) (task : Task) : Prop where
  bits : Bits spec.requiredBits.start.toNat spec.universeBits.toNat task.required
  narrow : spec.universeBits.toNat ≤ 32
  arrival : task.arrival.Perm (List.range n)

theorem drawTask_returns (n : Nat) : Returns (spec.drawTask n) (spec.Drawn n) := by
  refine spec.drawRequired_returns.bind fun required hrequired ↦ ?_
  refine (permutation_returns n).bind fun arrival harrival ↦ ?_
  exact Returns.pure ⟨hrequired.1, hrequired.2, harrival⟩

theorem draw_returns :
    Returns spec.draw fun drawn ↦ ∀ task ∈ drawn.2, spec.Drawn drawn.1.length task := by
  refine (Returns.any _).bind fun n _ ↦ ?_
  refine (Returns.mapM fun id _ ↦ Returns.any (spec.drawAgent id)).bind fun agents hagents ↦ ?_
  refine (Returns.mapM fun _ _ ↦ spec.drawTask_returns n.toNat).bind fun tasks htasks ↦ ?_
  refine Returns.pure ?_
  rw [← hagents.length_eq, List.length_range]
  exact forall_of_forall₂ htasks

end InstanceSpec

end Koalisi.Harness
