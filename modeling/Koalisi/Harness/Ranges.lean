import Koalisi.Harness.Instance
import Koalisi.Lib.Period
import Koalisi.Lib.Settles

/-!
# Instances within their ranges

Every draw of an instance comes to an end, if the ranges are not empty and no more bits are asked
for than there are.  Drawing bits until enough are held ends because all numbers are drawn among
`2 ^ 64` of them, so that every bit turns up.  It ends with just as many bits as were asked for,
since one draw adds at most one.
-/

namespace Koalisi.Harness

open Koalisi.Lib Koalisi.Lib.Masks
open Koalisi.Topology (U64)

/-! ## Distinct bits -/

theorem below_settles {bound : UInt64} (h : bound ≠ 0) (rng : SplitMix64) :
    Settles (below bound) rng fun u rng' ↦ u = rng.nth 0 % bound ∧ rng' = rng.next := by
  refine Settles.bind (R := fun u rng' ↦ u = rng.nth 0 ∧ rng' = rng.next)
    ⟨_, _, rng.nextU64_run, rfl, rfl⟩ ?_
  rintro u rng' ⟨rfl, rfl⟩
  rw [if_neg h]
  exact .pure ⟨rfl, rfl⟩

section Hold

variable {k : Nat} {universeBits : UInt64} {fuel : Nat} {held : UInt32}

/-- A bit that is drawn is a bit of the universe. -/
theorem toNat_drawn (hle : universeBits.toNat ≤ 32) {bit : UInt64}
    (h : bit.toNat < universeBits.toNat) : bit.toUInt32.toNat = bit.toNat := by
  rw [UInt64.toNat_toUInt32]
  exact Nat.mod_eq_of_lt (by omega)

/-- No more bits are held than were asked for. -/
theorem hold_counts (hle : universeBits.toNat ≤ 32) (h : countOnes held ≤ k) :
    Returns (hold k universeBits fuel held) fun mask ↦ countOnes mask = k := by
  induction fuel generalizing held with
  | zero =>
      rw [hold]
      split
      · next hk => exact .pure (Nat.le_antisymm h hk)
      · exact returns_stuck _
  | succ fuel ih =>
      rw [hold]
      split
      · next hk => exact .pure (Nat.le_antisymm h hk)
      · next hk =>
          refine (below_returns universeBits).bind fun bit hbit ↦ ih ?_
          have hbit' : bit.toUInt32.toNat < 32 := by
            rw [toNat_drawn hle hbit]
            omega
          exact (countOnes_or_single_le hbit').trans (Nat.lt_of_not_le hk)

/-- If every bit is held or will be drawn, enough will be held. -/
theorem hold_settles (hle : universeBits.toNat ≤ 32) (hk : k ≤ universeBits.toNat)
    {rng : SplitMix64} (hall : ∀ b < universeBits.toNat,
      Holds held b ∨ ∃ i < fuel, rng.nth i % universeBits = UInt64.ofNat b) :
    Settles (hold k universeBits fuel held) rng fun _ _ ↦ True := by
  induction fuel generalizing held rng with
  | zero =>
      have hheld : ∀ b < universeBits.toNat, Holds held b := by
        intro b hb
        rcases hall b hb with h | ⟨i, hi, -⟩
        · exact h
        · exact absurd hi (Nat.not_lt_zero i)
      rw [hold, if_pos (hk.trans (le_countOnes hle hheld))]
      exact .pure trivial
  | succ fuel ih =>
      rw [hold]
      split
      · exact .pure trivial
      · next hk' =>
          have hne : universeBits ≠ 0 := by
            rintro rfl
            exact hk' (hk.trans (Nat.zero_le _))
          refine (below_settles hne rng).bind ?_
          rintro bit rng' ⟨rfl, rfl⟩
          have hbit : (rng.nth 0 % universeBits).toNat < universeBits.toNat := by
            rw [UInt64.toNat_mod]
            exact Nat.mod_lt _ (Nat.pos_of_ne_zero fun h ↦ hne (UInt64.toNat.inj h))
          have hbit' := toNat_drawn hle hbit
          refine ih fun b hb ↦ ?_
          rw [holds_or, holds_single (by omega), hbit', Bool.or_eq_true, decide_eq_true_iff]
          rcases hall b hb with h | ⟨i, hi, hdrawn⟩
          · exact .inl (.inl h)
          · cases i with
            | zero =>
                -- the bit is drawn now
                refine .inl (.inr ?_)
                rw [hdrawn, UInt64.toNat_ofNat', Nat.mod_eq_of_lt (by omega)]
            | succ i =>
                refine .inr ⟨i, Nat.lt_of_succ_lt_succ hi, ?_⟩
                rw [rng.nth_next, hdrawn]

/-- A loop that is over stays over. -/
theorem hold_run_succ {rng : SplitMix64} {result : UInt32 × SplitMix64}
    (h : (hold k universeBits fuel held).run rng = some result) :
    (hold k universeBits (fuel + 1) held).run rng = some result := by
  induction fuel generalizing held rng with
  | zero =>
      rw [hold] at h
      rw [hold]
      split at h
      · next hk => rwa [if_pos hk]
      · cases h
  | succ fuel ih =>
      rw [hold] at h ⊢
      split at h
      · next hk => rwa [if_pos hk]
      · next hk =>
          rw [if_neg hk, StateT.run_bind]
          rw [StateT.run_bind] at h
          obtain ⟨⟨bit, rng'⟩, hbit, hrest⟩ := Option.bind_eq_some_iff.mp h
          rw [hbit]
          exact ih hrest

end Hold

/-- A mask of a universe, with so many bits as a range allows. -/
structure MaskIn (universeBits : UInt32) (counts : RangeInclusive UInt32) (mask : UInt32) :
    Prop where
  inside : ∀ b, Holds mask b → b < universeBits.toNat
  start_le : counts.start.toNat ≤ countOnes mask
  le_stop : countOnes mask ≤ counts.stop.toNat

/-- From any state, just so many bits of the universe are drawn. -/
theorem distinctBits_yields {k universeBits : UInt32} (hk : k ≤ universeBits)
    (hle : universeBits ≤ 32) :
    Yields (distinctBits k universeBits) fun mask ↦
      (∀ b, Holds mask b → b < universeBits.toNat) ∧ countOnes mask = k.toNat := by
  have hle' : universeBits.toUInt64.toNat ≤ 32 := UInt32.le_iff_toNat_le.mp hle
  have hk' : k.toNat ≤ universeBits.toUInt64.toNat := UInt32.le_iff_toNat_le.mp hk
  have hbits := distinctBits_returns k universeBits
  rw [distinctBits, if_pos ⟨hk, hle⟩] at hbits ⊢
  have hcounts : Returns (hold k.toNat universeBits.toUInt64 (2 ^ 64) 0) fun mask ↦
      countOnes mask = k.toNat := hold_counts hle' (countOnes_zero.trans_le (Nat.zero_le _))
  refine Returns.yields
    (fun s mask t h ↦ ⟨(hbits s mask t h).1.lt, hcounts s mask t h⟩) fun rng ↦ ?_
  refine hold_settles hle' hk' fun b hb ↦ .inr ?_
  obtain ⟨i, hi, hdrawn⟩ := rng.exists_nth (UInt64.ofNat b)
  refine ⟨i, hi, ?_⟩
  have hb' : (UInt64.ofNat b).toNat = b := by
    rw [UInt64.toNat_ofNat', Nat.mod_eq_of_lt (by omega)]
  refine UInt64.toNat.inj ?_
  rw [hdrawn, UInt64.toNat_mod, hb', Nat.mod_eq_of_lt hb]

/-- **Drawing distinct bits ends.**  From any state, the loop is over after a number of rounds, and
just so many bits are held, all of the universe. -/
theorem distinctBits_ends {k universeBits : UInt32} (hk : k ≤ universeBits)
    (hle : universeBits ≤ 32) (rng : SplitMix64) :
    ∃ rounds ≤ 2 ^ 64, ∃ mask rng',
      (∀ fuel, (hold k.toNat universeBits.toUInt64 fuel 0).run rng =
        if rounds ≤ fuel then some (mask, rng') else none) ∧
      (distinctBits k universeBits).run rng = some (mask, rng') ∧
      countOnes mask = k.toNat ∧ ∀ b, Holds mask b → b < universeBits.toNat := by
  obtain ⟨mask, rng', hrun, hinside, hcount⟩ := distinctBits_yields hk hle rng
  have hloop : (hold k.toNat universeBits.toUInt64 (2 ^ 64) 0).run rng = some (mask, rng') := by
    rwa [distinctBits, if_pos ⟨hk, hle⟩] at hrun
  obtain ⟨rounds, hrounds, hfuel⟩ := exists_rounds
    (f := fun fuel ↦ (hold k.toNat universeBits.toUInt64 fuel 0).run rng)
    (fun _ _ h ↦ hold_run_succ h) hloop
  exact ⟨rounds, hrounds, mask, rng', hfuel, hrun, hcount, hinside⟩

/-- All the bits of the widest universe, from the state 7. -/
theorem distinctBits_all_end :
    ∃ rounds ≤ 2 ^ 64, ∃ mask rng',
      (∀ fuel, (hold 32 32 fuel 0).run (⟨7⟩ : SplitMix64) =
        if rounds ≤ fuel then some (mask, rng') else none) ∧
      (distinctBits 32 32).run ⟨7⟩ = some (mask, rng') ∧
      countOnes mask = 32 ∧ ∀ b, Holds mask b → b < 32 :=
  @distinctBits_ends 32 32 (by decide) (by decide) ⟨7⟩

/-! ## Ranges -/

theorem below_yields {bound : UInt64} (h : bound ≠ 0) :
    Yields (below bound) fun _ ↦ True := by
  intro rng
  obtain ⟨u, rng', hrun, -⟩ := below_settles h rng
  exact ⟨u, rng', hrun, trivial⟩

theorem drawIn_yields {start stop : UInt64} (hle : start ≤ stop)
    (hnarrow : stop.toNat - start.toNat + 1 < 2 ^ 64) :
    Yields (drawIn start stop) fun x ↦ start.toNat ≤ x.toNat ∧ x.toNat ≤ stop.toNat := by
  refine (drawIn_returns start stop).yields ?_
  have hwidth : stop - start + 1 ≠ 0 := by
    intro hzero
    have hone : (1 : UInt64).toNat = 1 := rfl
    have h := congrArg UInt64.toNat hzero
    rw [UInt64.toNat_add, UInt64.toNat_sub_of_le _ _ hle, hone, Nat.mod_eq_of_lt hnarrow] at h
    exact Nat.succ_ne_zero _ h
  rw [drawIn, if_pos hle]
  exact (below_yields hwidth).bind fun _ _ ↦ Yields.pure trivial

theorem RangeInclusive.draw_yields {range : RangeInclusive UInt32} (h : range.start ≤ range.stop) :
    Yields range.draw fun x ↦ range.start.toNat ≤ x.toNat ∧ x.toNat ≤ range.stop.toNat := by
  refine range.draw_returns.yields ?_
  have hstop : range.stop.toUInt64.toNat < 2 ^ 32 := range.stop.toNat_lt
  refine (drawIn_yields (UInt32.le_iff_toNat_le.mp h) ?_).bind fun _ _ ↦ Yields.pure trivial
  omega

/-! ## Instances -/

namespace InstanceSpec

variable (spec : InstanceSpec)

/-- The ranges are not empty, and no more bits are asked for than there are. -/
structure WellFormed : Prop where
  universe_le : spec.universeBits ≤ 32
  pool : spec.pool.start ≤ spec.pool.stop
  /-- The range is not that of all numbers. -/
  pool_narrow : spec.pool.stop.toNat - spec.pool.start.toNat + 1 < 2 ^ 64
  capsPerAgent : spec.capsPerAgent.start ≤ spec.capsPerAgent.stop
  capsPerAgent_le : spec.capsPerAgent.stop ≤ spec.universeBits
  trust : spec.trust.start ≤ spec.trust.stop
  requiredBits : spec.requiredBits.start ≤ spec.requiredBits.stop
  requiredBits_le : spec.requiredBits.stop ≤ spec.universeBits

/-- An agent within the ranges, at its place in the pool. -/
structure AgentIn (id : Nat) (agent : CapabilityAgent) : Prop where
  id_eq : agent.id = id
  capabilities : MaskIn spec.universeBits spec.capsPerAgent agent.capabilities
  trust_ge : spec.trust.start.toNat ≤ agent.trust.toNat
  trust_le : agent.trust.toNat ≤ spec.trust.stop.toNat

/-- A task within the ranges, for a pool of so many agents. -/
structure TaskIn (n : Nat) (task : Task) : Prop where
  required : MaskIn spec.universeBits spec.requiredBits task.required
  arrival : task.arrival.Perm (List.range n)

/-- An instance within the ranges. -/
structure Honours (inst : Instance) : Prop where
  pool_ge : spec.pool.start.toNat ≤ inst.agents.length
  pool_le : inst.agents.length ≤ spec.pool.stop.toNat
  agents : ∀ i agent, inst.agents[i]? = some agent → spec.AgentIn i agent
  length_tasks : inst.tasks.length = spec.tasks
  tasks : ∀ task ∈ inst.tasks, spec.TaskIn inst.agents.length task

variable {spec}

/-- A mask of a number of bits out of a range. -/
theorem drawMask_yields {counts : RangeInclusive UInt32} (hle : spec.universeBits ≤ 32)
    (hcounts : counts.start ≤ counts.stop) (hstop : counts.stop ≤ spec.universeBits) :
    Yields (counts.draw >>= fun k ↦ distinctBits k spec.universeBits)
      (MaskIn spec.universeBits counts) := by
  refine (RangeInclusive.draw_yields hcounts).bind fun k hk ↦ ?_
  have hk' : k ≤ spec.universeBits := UInt32.le_trans (UInt32.le_iff_toNat_le.mpr hk.2) hstop
  refine (distinctBits_yields hk' hle).imp fun mask hmask ↦ ⟨hmask.1, ?_, ?_⟩
  · exact hk.1.trans_eq hmask.2.symm
  · exact hmask.2.trans_le hk.2

theorem drawAgent_yields (h : spec.WellFormed) (id : Nat) :
    Yields (spec.drawAgent id) (spec.AgentIn id) := by
  have hmask := drawMask_yields h.universe_le h.capsPerAgent h.capsPerAgent_le
  have hbind : spec.drawAgent id = (spec.capsPerAgent.draw >>= fun k ↦
      distinctBits k spec.universeBits) >>= fun mask ↦ do
        let trust ← spec.trust.draw
        return { id, capabilities := mask, trust } := by
    rw [bind_assoc]
    rfl
  rw [hbind]
  refine hmask.bind fun mask hmask ↦ ?_
  refine (RangeInclusive.draw_yields h.trust).bind fun trust htrust ↦ ?_
  exact Yields.pure ⟨rfl, hmask, htrust.1, htrust.2⟩

theorem permutation_yields (n : Nat) : Yields (permutation n) (·.Perm (List.range n)) :=
  Algorithms.shuffle_yields n

theorem drawTask_yields (h : spec.WellFormed) (n : Nat) :
    Yields (spec.drawTask n) (spec.TaskIn n) := by
  refine (drawMask_yields h.universe_le h.requiredBits h.requiredBits_le).bind fun mask hmask ↦ ?_
  exact (permutation_yields n).bind fun arrival harrival ↦ Yields.pure ⟨hmask, harrival⟩

/-- What is drawn for each place is found there. -/
theorem getElem?_of_forall₂_range {α : Type} {P : Nat → α → Prop} {n : Nat} {l : List α}
    (h : List.Forall₂ P (List.range n) l) {i : Nat} {a : α} (ha : l[i]? = some a) : P i a := by
  obtain ⟨hi, rfl⟩ := List.getElem?_eq_some_iff.mp ha
  have hi' : i < (List.range n).length := h.length_eq ▸ hi
  have hget := h.get hi' hi
  rwa [List.get_eq_getElem, List.getElem_range, List.get_eq_getElem] at hget

theorem draw_yields (h : spec.WellFormed) (seed : U64) :
    Yields spec.draw fun drawn ↦ spec.Honours { seed, agents := drawn.1, tasks := drawn.2 } := by
  refine (drawIn_yields h.pool h.pool_narrow).bind fun n hn ↦ ?_
  refine (Yields.mapM fun id _ ↦ drawAgent_yields h id).bind fun agents hagents ↦ ?_
  refine (Yields.mapM fun _ _ ↦ drawTask_yields h n.toNat).bind fun tasks htasks ↦ Yields.pure ?_
  have hlen : agents.length = n.toNat := by rw [← hagents.length_eq, List.length_range]
  refine ⟨hn.1.trans_eq hlen.symm, hlen.trans_le hn.2, ?_, ?_, ?_⟩
  · exact fun i agent hagent ↦ getElem?_of_forall₂_range hagents hagent
  · exact htasks.length_eq.symm.trans List.length_range
  · exact hlen.symm ▸ forall_of_forall₂ htasks

/-- **Instances honour their ranges.** -/
theorem generate_honours (h : spec.WellFormed) (seed : U64) :
    ∃ inst, spec.generate seed = some inst ∧ inst.seed = seed ∧ spec.Honours inst := by
  obtain ⟨⟨agents, tasks⟩, rng, hrun, hdrawn⟩ := draw_yields h seed ⟨UInt64.ofNat seed⟩
  refine ⟨_, ?_, rfl, hdrawn⟩
  rw [generate, hrun]
  rfl

/-- All of a universe of 32 bits, and an agent that may be alone. -/
def widest : InstanceSpec where
  universeBits := 32
  pool := ⟨1, 2⟩
  capsPerAgent := ⟨0, 32⟩
  trust := ⟨20, 99⟩
  tasks := 2
  requiredBits := ⟨1, 32⟩

theorem widest_honoured :
    ∃ inst, widest.generate 7 = some inst ∧ inst.seed = 7 ∧ widest.Honours inst :=
  generate_honours ⟨by decide, by decide, by decide, by decide, by decide, by decide, by decide,
    by decide⟩ 7

end InstanceSpec

end Koalisi.Harness
