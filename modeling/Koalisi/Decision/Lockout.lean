import Mathlib.Data.UInt
import Koalisi.Decision.Eviction

/-!
# The lockout of agents that have left

Calls come in on one arm, one after the other.  An agent that has left is locked out for some
tasks: it is not to join while these are observed.  The arm remembers for each agent when it left
the last time, and this is what the history of the calls says (`remembers_run`).

The end of the lockout is the sum of two numbers, and a lockout may be as long as a word can say.
If the sum does not fit, the check ends in a panic.  Otherwise the agent is locked out for exactly
the tasks it is to be locked out for (`locksOut_iff`).
-/

namespace Koalisi.Decision

open Koalisi.Lib Koalisi.Lib.Masks
open Koalisi.Harness (CapabilityAgent)
open Koalisi.Topology (Decision DecisionContext)

variable {F : Type} [FloatingPoint F]

/-! ## Calls and their history -/

/-- What is called on an arm. -/
inductive ArmCall where
  | shouldJoin (agent : CapabilityAgent) (coalition : List CapabilityAgent) (ctx : DecisionContext)
  | shouldLeave (agent : CapabilityAgent) (coalition : List CapabilityAgent) (ctx : DecisionContext)
  | observeOutcome (required : UInt32) (perBitSuccess : List Bool)
deriving DecidableEq, Repr

/-- A call that has returned. -/
inductive Returned where
  | join (agentId : Nat) (act : Bool)
  /-- With the number of tasks that were observed when it came in. -/
  | leave (agentId : Nat) (act : Bool) (tasksObserved : Nat)
  | outcome
deriving DecidableEq, Repr

/-- How many tasks were observed when an agent left the last time; the newest call comes first. -/
def lastLeave (agentId : Nat) : List Returned → Option Nat
  | [] => none
  | .leave id true t :: history => if id = agentId then some t else lastLeave agentId history
  | _ :: history => lastLeave agentId history

/-- An arm, and the calls that have returned. -/
structure CalledArm (aif : Aif F) where
  inner : Inner aif
  history : List Returned

namespace CalledArm

variable {aif : Aif F}

/-- One more call. -/
def step (arm : PersistentAifArm F) (s : CalledArm aif) : ArmCall → Option (CalledArm aif)
  | .shouldJoin agent coalition ctx => do
      let (d, inner) ← (arm.shouldJoin agent coalition ctx).run s.inner
      return ⟨inner, .join agent.id d.act :: s.history⟩
  | .shouldLeave agent coalition ctx => do
      let (d, inner) ← (arm.shouldLeave agent coalition ctx).run s.inner
      return ⟨inner, .leave agent.id d.act s.inner.tasksObserved :: s.history⟩
  | .observeOutcome required perBitSuccess => do
      let ((), inner) ← (arm.observeOutcome required perBitSuccess).run s.inner
      return ⟨inner, .outcome :: s.history⟩

/-- Calls that come one after the other. -/
def run (arm : PersistentAifArm F) (s : CalledArm aif) (calls : List ArmCall) :
    Option (CalledArm aif) := calls.foldlM (step arm) s

end CalledArm

/-! ## What a call does to the memory -/

namespace PersistentAifArm

variable {aif : Aif F} (arm : PersistentAifArm F) {inner : Inner aif}

omit [FloatingPoint F] in
theorem lockedOut_ensures (agentId : Nat) :
    Ensures (arm.lockedOut agentId) inner fun _ inner' ↦ inner' = inner := by
  rw [lockedOut]
  split
  · exact .pure rfl
  · refine .get_bind ?_
    cases inner.evictedAt agentId with
    | none => exact .pure rfl
    | some t =>
        dsimp only
        split
        · split
          · exact .pure rfl
          · exact .stuck
        · exact .pure rfl

theorem shouldJoin_ensures (agent : CapabilityAgent) (coalition : List CapabilityAgent)
    (ctx : DecisionContext) :
    Ensures (arm.shouldJoin agent coalition ctx) inner fun _ inner' ↦
      ∃ counter, inner' = { inner with decisionCounter := counter } := by
  refine (arm.lockedOut_ensures agent.id).bind fun barred inner' h ↦ ?_
  cases h
  cases barred with
  | true => exact .pure ⟨inner.decisionCounter, rfl⟩
  | false => exact arm.decide_ensures _ _ _ false

omit [FloatingPoint F] in
theorem capReached_keeps : Ensures arm.capReached inner fun _ inner' ↦ inner' = inner := by
  rw [capReached]
  split
  · exact .pure rfl
  · exact .get_bind (.pure rfl)

/-- A leave that is acted on is remembered. -/
theorem shouldLeave_ensures (agent : CapabilityAgent) (coalition : List CapabilityAgent)
    (ctx : DecisionContext) :
    Ensures (arm.shouldLeave agent coalition ctx) inner fun d inner' ↦
      inner'.evictedAt = if d.act then
        Function.update inner.evictedAt agent.id (some inner.tasksObserved)
      else inner.evictedAt := by
  refine arm.capReached_keeps.bind fun reached inner' h ↦ ?_
  obtain rfl : inner' = inner := h
  cases reached with
  | true => exact .pure rfl
  | false =>
      refine (arm.decideLeave_ensures agent coalition ctx).bind fun d inner' h ↦ ?_
      obtain ⟨counter, rfl⟩ := h
      cases hact : d.act with
      | true => exact .modifyGet_bind (.pure (by rw [hact]; rfl))
      | false => exact .pure (by rw [hact]; rfl)

omit [FloatingPoint F] in
theorem observeOutcome_ensures (required : UInt32) (perBitSuccess : List Bool) :
    Ensures (arm.observeOutcome required perBitSuccess) inner fun _ inner' ↦
      inner'.evictedAt = inner.evictedAt := by
  have hchecked : Ensures (arm.observeOutcomeChecked required perBitSuccess) inner
      fun _ inner' ↦ inner'.evictedAt = inner.evictedAt := by
    rw [observeOutcomeChecked]
    split
    · exact .pure rfl
    · exact .modifyGet rfl
  exact hchecked.bind fun _ inner' h ↦ .pure h

end PersistentAifArm

namespace CalledArm

variable {aif : Aif F} {arm : PersistentAifArm F} {s s' : CalledArm aif}

/-- The arm remembers what the history says. -/
def Remembers (s : CalledArm aif) : Prop :=
  ∀ agentId, s.inner.evictedAt agentId = lastLeave agentId s.history

theorem remembers_step {call : ArmCall} (h : Remembers s) (hstep : step arm s call = some s') :
    Remembers s' := by
  intro agentId
  cases call with
  | shouldJoin agent coalition ctx =>
      obtain ⟨⟨d, inner⟩, hrun, heq⟩ := Option.bind_eq_some_iff.mp hstep
      obtain ⟨counter, rfl⟩ := arm.shouldJoin_ensures agent coalition ctx d inner hrun
      cases heq
      exact h agentId
  | shouldLeave agent coalition ctx =>
      obtain ⟨⟨d, inner⟩, hrun, heq⟩ := Option.bind_eq_some_iff.mp hstep
      have hinner : inner.evictedAt = _ := arm.shouldLeave_ensures agent coalition ctx d inner hrun
      cases heq
      change inner.evictedAt agentId = lastLeave agentId (.leave agent.id d.act _ :: s.history)
      rw [hinner]
      cases d.act with
      | false => exact h agentId
      | true =>
          rw [if_pos rfl, lastLeave, Function.update_apply, h agentId]
          exact if_congr eq_comm rfl rfl
  | observeOutcome required perBitSuccess =>
      obtain ⟨⟨_, inner⟩, hrun, heq⟩ := Option.bind_eq_some_iff.mp hstep
      have hinner := arm.observeOutcome_ensures required perBitSuccess _ inner hrun
      cases heq
      exact (congrFun hinner agentId).trans (h agentId)

theorem remembers_run {calls : List ArmCall} (h : Remembers s) (hrun : run arm s calls = some s') :
    Remembers s' := by
  induction calls generalizing s with
  | nil =>
      cases hrun
      exact h
  | cons call calls ih =>
      obtain ⟨s₁, hstep, hrest⟩ := Option.bind_eq_some_iff.mp hrun
      exact ih (remembers_step h hstep) hrest

/-! ## The lockout -/

/-- An agent that left after `last` tasks is locked out for the tasks that come next. -/
def Barred (lockout : UInt64) (last : Option Nat) (now : Nat) : Prop :=
  ∃ t ∈ last, t < now ∧ now ≤ t + lockout.toNat

/-- The end of the lockout is a number of tasks that a word can say. -/
def EndFits (lockout : UInt64) (last : Option Nat) (now : Nat) : Prop :=
  ∀ t ∈ last, t < now → t + lockout.toNat < 2 ^ 64

instance decidableEndFits (lockout : UInt64) (last : Option Nat) (now : Nat) :
    Decidable (EndFits lockout last now) := inferInstanceAs (Decidable (∀ t ∈ last, _ → _))

instance decidableBarred (lockout : UInt64) (last : Option Nat) (now : Nat) :
    Decidable (Barred lockout last now) := inferInstanceAs (Decidable (∃ t ∈ last, _))

theorem not_barred_none {lockout : UInt64} {now : Nat} : ¬Barred lockout none now := by
  rintro ⟨t, ht, -⟩
  cases ht

theorem barred_some {lockout : UInt64} {t now : Nat} :
    Barred lockout (some t) now ↔ t < now ∧ now ≤ t + lockout.toNat := by
  constructor
  · rintro ⟨t', ht, h⟩
    cases ht
    exact h
  · exact fun h ↦ ⟨t, rfl, h⟩

theorem endFits_none {lockout : UInt64} {now : Nat} : EndFits lockout none now := by
  intro t ht
  cases ht

theorem endFits_some {lockout : UInt64} {t now : Nat} :
    EndFits lockout (some t) now ↔ (t < now → t + lockout.toNat < 2 ^ 64) := by
  constructor
  · exact fun h ↦ h t rfl
  · intro h t' ht
    cases ht
    exact h

/-- A new arm remembers nothing. -/
theorem new_forgets {batterySeed : UInt64} {config : PersistentAifConfig F} {inner : Inner aif}
    (h : PersistentAifArm.new aif batterySeed config = some (.ok (arm, inner))) :
    arm.config.rejoinLockoutTasks = config.rejoinLockoutTasks ∧
      ∀ agentId, inner.evictedAt agentId = none := by
  obtain ⟨built, hbuilt, h⟩ := Option.bind_eq_some_iff.mp h
  cases built with
  | error e => cases h
  | ok agent =>
      cases h
      exact ⟨rfl, fun _ ↦ rfl⟩

omit [FloatingPoint F] in
/-- What the check finds, if the end of the lockout fits. -/
theorem lockedOut_run {agentId : Nat} {inner : Inner aif}
    (hpos : 0 < arm.config.rejoinLockoutTasks) :
    (arm.lockedOut agentId).run inner =
      if EndFits arm.config.rejoinLockoutTasks (inner.evictedAt agentId) inner.tasksObserved then
        some (decide (Barred arm.config.rejoinLockoutTasks (inner.evictedAt agentId)
          inner.tasksObserved), inner)
      else none := by
  have hne : arm.config.rejoinLockoutTasks ≠ 0 := by
    intro hzero
    rw [hzero] at hpos
    exact absurd hpos (by decide)
  rw [PersistentAifArm.lockedOut, if_neg hne]
  simp only [StateT.run_bind, StateT.run_get, Option.pure_def, Option.bind_eq_bind,
    Option.bind_some]
  cases inner.evictedAt agentId with
  | none =>
      rw [if_pos endFits_none, decide_eq_false not_barred_none]
      rfl
  | some t =>
      dsimp only
      by_cases hlater : t < inner.tasksObserved
      · rw [if_pos hlater]
        by_cases hfits : t + arm.config.rejoinLockoutTasks.toNat < 2 ^ 64
        · rw [if_pos hfits, if_pos (endFits_some.mpr fun _ ↦ hfits)]
          simp only [barred_some, hlater, true_and]
          rfl
        · rw [if_neg hfits, if_neg fun h ↦ hfits (endFits_some.mp h hlater)]
          rfl
      · rw [if_neg hlater, if_pos (endFits_some.mpr fun h ↦ absurd h hlater),
          decide_eq_false fun h ↦ hlater (barred_some.mp h).1]
        rfl

/-- The lockout is as it is documented: the check comes to an end, an agent that is locked out does
not join, and no other agent is concerned. -/
structure LocksOut (arm : PersistentAifArm F) (s : CalledArm aif) (agent : CapabilityAgent)
    (coalition : List CapabilityAgent) (ctx : DecisionContext) : Prop where
  checked : ∃ barred, (arm.lockedOut agent.id).run s.inner = some (barred, s.inner)
  declines : Barred arm.config.rejoinLockoutTasks (lastLeave agent.id s.history)
    s.inner.tasksObserved → (arm.shouldJoin agent coalition ctx).run s.inner =
      some (declined, s.inner)
  undisturbed : ¬Barred arm.config.rejoinLockoutTasks (lastLeave agent.id s.history)
    s.inner.tasksObserved → (arm.shouldJoin agent coalition ctx).run s.inner =
      (arm.decide ctx.requiredCapabilities agent.capabilities
        (unionCaps coalition ||| agent.capabilities) false).run s.inner

variable {agent : CapabilityAgent} {coalition : List CapabilityAgent} {ctx : DecisionContext}

theorem locksOut_of_endFits (hpos : 0 < arm.config.rejoinLockoutTasks) (h : Remembers s)
    (hfits : EndFits arm.config.rejoinLockoutTasks (lastLeave agent.id s.history)
      s.inner.tasksObserved) : LocksOut arm s agent coalition ctx := by
  rw [← h agent.id] at hfits
  have hchecked : (arm.lockedOut agent.id).run s.inner = _ := lockedOut_run hpos
  rw [if_pos hfits] at hchecked
  have hjoin : (arm.shouldJoin agent coalition ctx).run s.inner = _ :=
    StateT.run_bind (arm.lockedOut agent.id) _ s.inner
  rw [hchecked] at hjoin
  refine ⟨⟨_, hchecked⟩, fun hbarred ↦ ?_, fun hbarred ↦ ?_⟩
  · rw [← h agent.id] at hbarred
    rw [hjoin, decide_eq_true hbarred]
    rfl
  · rw [← h agent.id] at hbarred
    rw [hjoin, decide_eq_false hbarred]
    rfl

/-- After any calls, an agent that asks to join is locked out as it should be, if and only if the
end of its lockout fits, or there is none. -/
theorem locksOut_iff {batterySeed : UInt64} {config : PersistentAifConfig F} {inner : Inner aif}
    {calls : List ArmCall}
    (hnew : PersistentAifArm.new aif batterySeed config = some (.ok (arm, inner)))
    (hpos : 0 < config.rejoinLockoutTasks) (hrun : run arm ⟨inner, []⟩ calls = some s)
    (agent : CapabilityAgent) (coalition : List CapabilityAgent) (ctx : DecisionContext) :
    LocksOut arm s agent coalition ctx ↔
      EndFits config.rejoinLockoutTasks (lastLeave agent.id s.history) s.inner.tasksObserved := by
  obtain ⟨hconfig, hforgotten⟩ := new_forgets hnew
  have hremembers : Remembers s := remembers_run (fun agentId ↦ hforgotten agentId) hrun
  rw [← hconfig] at hpos ⊢
  refine ⟨fun h ↦ ?_, locksOut_of_endFits hpos hremembers⟩
  obtain ⟨barred, hchecked⟩ := h.checked
  rw [lockedOut_run hpos, hremembers agent.id] at hchecked
  by_contra hfits
  rw [if_neg hfits] at hchecked
  cases hchecked

/-! ### A lockout for two tasks, and one for as many as a word can say -/

section Sample

attribute [local instance] exactNumbers

open SharedArm (cappedInner)

/-- One bit to learn about, and no cap. -/
def lockedFor (tasks : UInt64) : PersistentAifConfig ℚ := { PersistentAifConfig.default with
  rejoinLockoutTasks := tasks
  nBits := 1 }

theorem new_lockedFor (tasks : UInt64) : PersistentAifArm.new undecidedAif 0 (lockedFor tasks) =
    some (.ok (.ofConfig (lockedFor tasks), cappedInner)) := rfl

def solo : CapabilityAgent := { id := 0, capabilities := 1, trust := 50 }

/-- An agent leaves in the second task, and is asked again in the third. -/
def leftInSecond : List ArmCall :=
  [.observeOutcome 1 [true], .shouldLeave solo [solo] { requiredCapabilities := 1 },
    .observeOutcome 1 [true]]

/-- When the agent left, and how many tasks were observed in the end. -/
def leftAndNow (tasks : UInt64) : Option (Option Nat × Nat) :=
  (run (.ofConfig (lockedFor tasks)) ⟨cappedInner, []⟩ leftInSecond).map fun s ↦
    (lastLeave solo.id s.history, s.inner.tasksObserved)

theorem locked_out_for_two : ∃ s,
    run (.ofConfig (lockedFor 2)) ⟨cappedInner, []⟩ leftInSecond = some s ∧
      Barred 2 (lastLeave solo.id s.history) s.inner.tasksObserved ∧
      LocksOut (.ofConfig (lockedFor 2)) s solo [] { requiredCapabilities := 1 } := by
  have hnow : leftAndNow 2 = some (some 1, 2) := by decide +kernel
  obtain ⟨s, hrun, hs⟩ := Option.map_eq_some_iff.mp hnow
  obtain ⟨hleft, hnow⟩ := Prod.mk.inj hs
  refine ⟨s, hrun, ?_, (locksOut_iff (new_lockedFor 2) (by decide) hrun solo [] _).mpr ?_⟩
  · rw [hleft, hnow]
    decide
  · rw [hleft, hnow]
    decide

/-- The end of the longest lockout does not fit: the agent is to be locked out, and the call does
not return. -/
theorem longest_lockout_panics : ∃ s,
    PersistentAifArm.new undecidedAif 0 (lockedFor (2 ^ 64 - 1)) =
        some (.ok (.ofConfig (lockedFor (2 ^ 64 - 1)), cappedInner)) ∧
      run (.ofConfig (lockedFor (2 ^ 64 - 1))) ⟨cappedInner, []⟩ leftInSecond = some s ∧
      Barred (2 ^ 64 - 1) (lastLeave solo.id s.history) s.inner.tasksObserved ∧
      (PersistentAifArm.shouldJoin (.ofConfig (lockedFor (2 ^ 64 - 1))) solo []
        { requiredCapabilities := 1 }).run s.inner = none ∧
      ¬LocksOut (.ofConfig (lockedFor (2 ^ 64 - 1))) s solo [] { requiredCapabilities := 1 } := by
  have hnow : leftAndNow (2 ^ 64 - 1) = some (some 1, 2) := by decide +kernel
  obtain ⟨s, hrun, hs⟩ := Option.map_eq_some_iff.mp hnow
  obtain ⟨hleft, hnow⟩ := Prod.mk.inj hs
  have hremembers : Remembers s := remembers_run (fun _ ↦ rfl) hrun
  have hfits : ¬EndFits (2 ^ 64 - 1) (s.inner.evictedAt solo.id) s.inner.tasksObserved := by
    rw [hremembers solo.id, hleft, hnow]
    decide +kernel
  have hstuck : (PersistentAifArm.lockedOut (.ofConfig (lockedFor (2 ^ 64 - 1))) solo.id).run
      s.inner = none := (lockedOut_run (by decide +kernel)).trans (if_neg hfits)
  have hjoin : (PersistentAifArm.shouldJoin (.ofConfig (lockedFor (2 ^ 64 - 1))) solo []
      { requiredCapabilities := 1 }).run s.inner = none := by
    rw [PersistentAifArm.shouldJoin, StateT.run_bind, hstuck]
    rfl
  refine ⟨s, new_lockedFor _, hrun, ?_, hjoin, fun h ↦ ?_⟩
  · rw [hleft, hnow]
    decide +kernel
  · obtain ⟨barred, hchecked⟩ := h.checked
    cases hstuck.symm.trans hchecked

end Sample

end CalledArm

end Koalisi.Decision
