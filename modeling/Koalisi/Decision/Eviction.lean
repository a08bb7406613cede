import Koalisi.Decision.Persistent
import Koalisi.Lib.Ensures
import Koalisi.Lib.Rations

/-!
# The cap on leaves

Calls of `shouldLeave` and of `observeOutcome` come in on one arm at the same time.  A call to
leave looks at the cap, asks the engine and counts the leave, each under the lock; in between
other calls take the lock.  What the callers see is a log: calls that return, and outcomes that
are applied.

The cap is looked at long before the leave is counted.  Two calls that both find room under the
cap may both leave, although there was room for one.  Where every leave is counted while there is
still room, and no outcome cuts off a leave that has been counted, the cap is kept.
-/

namespace Koalisi.Decision

open Koalisi.Lib
open Koalisi.Harness (CapabilityAgent)
open Koalisi.Topology (Decision DecisionContext)

variable {F : Type} [FloatingPoint F]

/-- Where a call of `shouldLeave` is. -/
inductive LeaveCall (F : Type) where
  /-- There was room under the cap, and the engine has not been asked. -/
  | asking (agent : CapabilityAgent) (coalition : List CapabilityAgent) (ctx : DecisionContext)
  /-- The decision is to leave, which has not been counted. -/
  | counting (agentId : Nat) (score : F)
  | returning (decision : Decision F)
  | returned (decision : Decision F)

/-- What the callers see. -/
inductive ArmEvent where
  | returned (act : Bool)
  /-- An outcome that was applied. -/
  | boundary
deriving DecidableEq, Repr

namespace ArmEvent

def isBoundary : ArmEvent → Bool
  | boundary => true
  | returned _ => false

def isLeave : ArmEvent → Bool
  | boundary => false
  | returned act => act

end ArmEvent

/-- Between two outcomes there are only so many leaves. -/
abbrev Capped (cap : Nat) (log : List ArmEvent) : Prop :=
  Rationed ArmEvent.isBoundary ArmEvent.isLeave cap log

namespace LeaveCall

variable {aif : Aif F} (arm : PersistentAifArm F)

/-- A call comes in and looks at the cap. -/
def enter (agent : CapabilityAgent) (coalition : List CapabilityAgent) (ctx : DecisionContext) :
    StateT (Inner aif) Option (LeaveCall F) := do
  if ← arm.capReached then return returning declined else return asking agent coalition ctx

/-- The call takes the lock once more, if it has to. -/
def next : LeaveCall F → StateT (Inner aif) Option (LeaveCall F)
  | asking agent coalition ctx => do
      let d ← arm.decideLeave agent coalition ctx
      if d.act then return counting agent.id d.score else return returning d
  | counting agentId score => do
      PersistentAifArm.countEviction agentId
      return returning ⟨true, score⟩
  | returning d => return returned d
  | returned _ => StateT.lift none

/-- The decision, once there is one. -/
def decision? : LeaveCall F → Option (Decision F)
  | asking _ _ _ => none
  | counting _ score => some ⟨true, score⟩
  | returning d => some d
  | returned d => some d

/-- The leave has been counted, and the call has not returned. -/
def isLeaving : LeaveCall F → Bool
  | returning d => d.act
  | _ => false

/-- The leave has been decided, and has not been counted. -/
def isCounting : LeaveCall F → Bool
  | counting _ _ => true
  | _ => false

/-- What the callers see when the call has gone on. -/
def event? : LeaveCall F → Option ArmEvent
  | returned d => some (.returned d.act)
  | _ => none

end LeaveCall

/-- An arm, the calls on it and what has been seen of them. -/
structure SharedArm (aif : Aif F) where
  inner : Inner aif
  calls : List (LeaveCall F)
  log : List ArmEvent

/-- What happens next on an arm. -/
inductive ArmAction where
  | enter (agent : CapabilityAgent) (coalition : List CapabilityAgent) (ctx : DecisionContext)
  /-- One of the calls goes on. -/
  | proceed (i : Nat)
  | observe (required : UInt32) (perBitSuccess : List Bool)
deriving DecidableEq, Repr

namespace SharedArm

variable {aif : Aif F}

/-- An arm that nobody has called. -/
def idle (inner : Inner aif) : SharedArm aif := ⟨inner, [], []⟩

def step (arm : PersistentAifArm F) (s : SharedArm aif) : ArmAction → Option (SharedArm aif)
  | .enter agent coalition ctx => do
      let (call, inner) ← (LeaveCall.enter arm agent coalition ctx).run s.inner
      return { s with inner, calls := s.calls ++ [call] }
  | .proceed i => do
      let call ← s.calls[i]?
      let (call', inner) ← (call.next arm).run s.inner
      return { inner, calls := s.calls.set i call', log := s.log ++ call'.event?.toList }
  | .observe required perBitSuccess => do
      let (applied, inner) ← (arm.observeOutcomeChecked required perBitSuccess).run s.inner
      return { s with inner, log := if applied then s.log ++ [.boundary] else s.log }

/-- Whatever happens on the arm, one thing after the other. -/
def run (arm : PersistentAifArm F) (s : SharedArm aif) (actions : List ArmAction) :
    Option (SharedArm aif) := actions.foldlM (step arm) s

end SharedArm

/-! ## One call alone -/

namespace PersistentAifArm

variable {aif : Aif F} (arm : PersistentAifArm F) {inner : Inner aif}

omit [FloatingPoint F] in
theorem capReached_ensures {cap : UInt32} (hcap : arm.config.evictionCap = some cap) :
    Ensures arm.capReached inner fun reached inner' ↦
      inner' = inner ∧ (reached = false → inner.evictionsThisTask < cap.toNat) := by
  rw [capReached, hcap]
  refine .get_bind (.pure ⟨rfl, fun h ↦ ?_⟩)
  exact Nat.lt_of_not_le (of_decide_eq_false h)

theorem new_eq_ok {batterySeed : UInt64} {config : PersistentAifConfig F}
    {arm : PersistentAifArm F}
    (h : PersistentAifArm.new aif batterySeed config = some (.ok (arm, inner))) :
    arm.config = config.clamped ∧ inner.evictionsThisTask = 0 := by
  obtain ⟨built, hbuilt, h⟩ := Option.bind_eq_some_iff.mp h
  cases built with
  | error e => cases h
  | ok agent =>
      cases h
      exact ⟨rfl, rfl⟩

/-- Asking the engine only counts a decision. -/
theorem ask_ensures (required cfg0 cfg1 : UInt32) (leave : Bool) :
    Ensures (arm.ask required cfg0 cfg1 leave) inner fun _ inner' ↦
      inner' = { inner with decisionCounter := inner.decisionCounter + 1 } := by
  refine .modifyGet_bind (.get_bind (.lift_bind fun built _ ↦ ?_))
  cases built with
  | error e => exact .pure rfl
  | ok query =>
      dsimp only
      cases (runReplay aif query.1 query.2 (Lib.Masks.countOnes required)).1 with
      | error e => exact .pure rfl
      | ok dist => exact .pure rfl

theorem decide_ensures (required cfg0 cfg1 : UInt32) (leave : Bool) :
    Ensures (arm.decide required cfg0 cfg1 leave) inner fun _ inner' ↦
      ∃ counter, inner' = { inner with decisionCounter := counter } := by
  rw [PersistentAifArm.decide]
  split
  · exact .pure ⟨inner.decisionCounter, rfl⟩
  · exact (ask_ensures arm _ _ _ leave).imp fun _ _ h ↦ ⟨_, h⟩

theorem decideLeave_ensures (agent : CapabilityAgent) (coalition : List CapabilityAgent)
    (ctx : DecisionContext) :
    Ensures (arm.decideLeave agent coalition ctx) inner fun _ inner' ↦
      ∃ counter, inner' = { inner with decisionCounter := counter } :=
  decide_ensures arm _ _ _ true

end PersistentAifArm

namespace LeaveCall

variable {aif : Aif F} (arm : PersistentAifArm F) {inner : Inner aif}

theorem enter_ensures {cap : UInt32} (hcap : arm.config.evictionCap = some cap)
    (agent : CapabilityAgent) (coalition : List CapabilityAgent) (ctx : DecisionContext) :
    Ensures (enter arm agent coalition ctx) inner fun call inner' ↦
      inner' = inner ∧ call.isLeaving = false := by
  refine (arm.capReached_ensures hcap).bind fun reached inner' h ↦ ?_
  cases reached with
  | true => exact .pure ⟨h.1, rfl⟩
  | false => exact .pure ⟨h.1, rfl⟩

/-- What one more section of a call does to the count, and to the leaves on their way out. -/
theorem next_ensures (call : LeaveCall F) :
    Ensures (call.next arm) inner fun call' inner' ↦
      match call with
      | asking _ _ _ =>
          inner'.evictionsThisTask = inner.evictionsThisTask ∧ call'.isLeaving = false ∧
            call'.event? = none
      | counting _ _ =>
          inner'.evictionsThisTask = inner.evictionsThisTask + 1 ∧ call'.isLeaving = true ∧
            call'.event? = none
      | returning d => inner' = inner ∧ call' = returned d
      | returned _ => False := by
  cases call with
  | asking agent coalition ctx =>
      refine (arm.decideLeave_ensures agent coalition ctx).bind fun d inner' h ↦ ?_
      obtain ⟨_, rfl⟩ := h
      cases hact : d.act with
      | true => exact .pure ⟨rfl, rfl, rfl⟩
      | false => exact .pure ⟨rfl, hact, rfl⟩
  | counting agentId score => exact .modifyGet_bind (.pure ⟨rfl, rfl, rfl⟩)
  | returning d => exact .pure ⟨rfl, rfl⟩
  | returned d => exact .stuck

end LeaveCall

/-! ## All calls together -/

namespace SharedArm

variable {aif : Aif F} {arm : PersistentAifArm F} {s s' : SharedArm aif}

/-- A call alone goes through its sections and does what `shouldLeave` does. -/
theorem run_alone {inner inner' : Inner aif} {agent : CapabilityAgent}
    {coalition : List CapabilityAgent} {ctx : DecisionContext} {d : Decision F}
    (h : (arm.shouldLeave agent coalition ctx).run inner = some (d, inner')) :
    ∃ sections, run arm (idle inner)
      (.enter agent coalition ctx :: List.replicate sections (.proceed 0)) =
        some ⟨inner', [.returned d], [.returned d.act]⟩ := by
  rw [PersistentAifArm.shouldLeave, StateT.run_bind] at h
  obtain ⟨⟨reached, inner₁⟩, hreached, h⟩ := Option.bind_eq_some_iff.mp h
  cases reached with
  | true =>
      cases h
      refine ⟨1, ?_⟩
      simp [run, idle, step, LeaveCall.enter, LeaveCall.next, LeaveCall.event?, hreached]
  | false =>
      rw [if_neg Bool.false_ne_true, StateT.run_bind] at h
      obtain ⟨⟨d', inner₂⟩, hdecide, h⟩ := Option.bind_eq_some_iff.mp h
      cases hact : d'.act with
      | true =>
          rw [hact] at h
          cases h
          have hd : (⟨true, d'.score⟩ : Decision F) = d' :=
            congrArg (Decision.mk · d'.score) hact.symm
          refine ⟨3, ?_⟩
          simp [run, idle, step, LeaveCall.enter, LeaveCall.next, LeaveCall.event?, hreached,
            hdecide, hact, hd, PersistentAifArm.countEviction]
      | false =>
          rw [hact] at h
          cases h
          refine ⟨2, ?_⟩
          simp [run, idle, step, LeaveCall.enter, LeaveCall.next, LeaveCall.event?, hreached,
            hdecide, hact]

/-- A leave is counted only while there is room under the cap; an outcome that is applied finds no
leave that has been counted and is still on its way out; and an outcome that the engine rejects
finds nothing counted. -/
def InTurn (arm : PersistentAifArm F) (cap : UInt32) (s : SharedArm aif) : ArmAction → Prop
  | .enter _ _ _ => True
  | .proceed i => ∀ call ∈ s.calls[i]?, call.isCounting → s.inner.evictionsThisTask < cap.toNat
  | .observe required perBitSuccess =>
      perBitSuccess.length = arm.config.nBits →
        if (PersistentAifArm.learn aif s.inner
            (PersistentAifArm.observation required perBitSuccess)).1.isOk then
          ∀ call ∈ s.calls, call.isLeaving = false
        else s.inner.evictionsThisTask = 0

/-- Everything happens in turn. -/
def AllInTurn (arm : PersistentAifArm F) (cap : UInt32) : SharedArm aif → List ArmAction → Prop
  | _, [] => True
  | s, action :: actions =>
      InTurn arm cap s action ∧ ∀ s' ∈ step arm s action, AllInTurn arm cap s' actions

instance decidableInTurn (arm : PersistentAifArm F) (cap : UInt32) (s : SharedArm aif) :
    ∀ action, Decidable (InTurn arm cap s action)
  | .enter _ _ _ => inferInstanceAs (Decidable True)
  | .proceed _ => inferInstanceAs (Decidable (∀ call ∈ _, _ → _))
  | .observe _ _ => inferInstanceAs (Decidable (_ → ite _ _ _))

instance decidableAllInTurn (arm : PersistentAifArm F) (cap : UInt32) :
    ∀ (s : SharedArm aif) actions, Decidable (AllInTurn arm cap s actions)
  | _, [] => inferInstanceAs (Decidable True)
  | _, _ :: actions =>
      have (s' : SharedArm aif) := decidableAllInTurn arm cap s' actions
      inferInstanceAs (Decidable (_ ∧ ∀ s' ∈ _, AllInTurn arm cap s' actions))

/-- The count stands for the leaves that the callers have seen since the last outcome, or are
about to see, and it is within the cap. -/
structure Within (cap : UInt32) (s : SharedArm aif) : Prop where
  counted : s.inner.evictionsThisTask =
    sinceMark ArmEvent.isBoundary ArmEvent.isLeave s.log + s.calls.countP LeaveCall.isLeaving
  le_cap : s.inner.evictionsThisTask ≤ cap.toNat
  capped : Capped cap.toNat s.log

omit [FloatingPoint F] in
theorem within_idle {cap : UInt32} {inner : Inner aif} (h : inner.evictionsThisTask = 0) :
    Within cap (idle inner) where
  counted := by rw [idle, sinceMark_nil]; exact h
  le_cap := h.trans_le (Nat.zero_le _)
  capped := Rationed.nil

theorem within_enter {cap : UInt32} (hcap : arm.config.evictionCap = some cap)
    {agent : CapabilityAgent} {coalition : List CapabilityAgent} {ctx : DecisionContext}
    (h : Within cap s) (hstep : step arm s (.enter agent coalition ctx) = some s') :
    Within cap s' := by
  obtain ⟨⟨call, inner⟩, hrun, heq⟩ := Option.bind_eq_some_iff.mp hstep
  obtain ⟨rfl, hcall⟩ := LeaveCall.enter_ensures arm hcap agent coalition ctx _ _ hrun
  cases heq
  refine ⟨?_, h.le_cap, h.capped⟩
  rw [List.countP_append, List.countP_singleton, hcall, h.counted]
  rfl

theorem within_proceed {cap : UInt32} {i : Nat} (hturn : InTurn arm cap s (.proceed i))
    (h : Within cap s) (hstep : step arm s (.proceed i) = some s') : Within cap s' := by
  obtain ⟨call, hcall, hstep⟩ := Option.bind_eq_some_iff.mp hstep
  obtain ⟨⟨call', inner⟩, hrun, heq⟩ := Option.bind_eq_some_iff.mp hstep
  have hcounted := h.counted
  have hset := countP_set_add (p := LeaveCall.isLeaving) (b := call') hcall
  have hnext := LeaveCall.next_ensures arm call call' inner hrun
  cases heq
  cases call with
  | asking agent coalition ctx =>
      obtain ⟨hevictions, hleaving, hevent⟩ := hnext
      rw [hleaving] at hset
      refine ⟨?_, hevictions.trans_le h.le_cap, ?_⟩
      · rw [hevictions, hcounted, hevent, Option.toList_none, List.append_nil]
        exact congrArg _ hset.symm
      · rw [hevent, Option.toList_none, List.append_nil]
        exact h.capped
  | counting agentId score =>
      obtain ⟨hevictions, hleaving, hevent⟩ := hnext
      have hroom : s.inner.evictionsThisTask < cap.toNat := hturn _ hcall rfl
      rw [hleaving] at hset
      refine ⟨?_, hevictions.trans_le hroom, ?_⟩
      · rw [hevictions, hcounted, hevent, Option.toList_none, List.append_nil, Nat.add_assoc]
        exact congrArg _ hset.symm
      · rw [hevent, Option.toList_none, List.append_nil]
        exact h.capped
  | returning d =>
      obtain ⟨rfl, rfl⟩ := hnext
      -- the leave moves from those on their way out to those that were seen
      have hsince : sinceMark ArmEvent.isBoundary ArmEvent.isLeave (s.log ++ [.returned d.act]) +
          (s.calls.set i (.returned d)).countP LeaveCall.isLeaving =
          sinceMark ArmEvent.isBoundary ArmEvent.isLeave s.log +
            s.calls.countP LeaveCall.isLeaving := by
        rw [sinceMark_concat rfl, Nat.add_assoc, Nat.add_comm (ite _ _ _)]
        exact congrArg _ hset
      refine ⟨hcounted.trans hsince.symm, h.le_cap, h.capped.concat ?_⟩
      exact le_trans (Nat.le_add_right _ _) (hsince.trans_le (hcounted.symm.trans_le h.le_cap))
  | returned d => exact hnext.elim

theorem within_observe {cap : UInt32} {required : UInt32} {perBitSuccess : List Bool}
    (hturn : InTurn arm cap s (.observe required perBitSuccess)) (h : Within cap s)
    (hstep : step arm s (.observe required perBitSuccess) = some s') : Within cap s' := by
  obtain ⟨⟨applied, inner⟩, hrun, heq⟩ := Option.bind_eq_some_iff.mp hstep
  cases heq
  rw [PersistentAifArm.observeOutcomeChecked] at hrun
  by_cases hwidth : perBitSuccess.length = arm.config.nBits
  · rw [if_neg (not_not_intro hwidth)] at hrun
    have hturn := hturn hwidth
    have hobserve : arm.observe (PersistentAifArm.observation required perBitSuccess) s.inner =
        (applied, inner) := Option.some.inj hrun
    have hzero : inner.evictionsThisTask = 0 :=
      (congrArg (fun p : Bool × Inner aif ↦ p.2.evictionsThisTask) hobserve).symm
    have happlied : (PersistentAifArm.learn aif s.inner
        (PersistentAifArm.observation required perBitSuccess)).1.isOk = applied :=
      congrArg Prod.fst hobserve
    rw [happlied] at hturn
    cases applied with
    | true =>
        -- nothing is on its way out, and the log starts over
        have hnone : s.calls.countP LeaveCall.isLeaving = 0 :=
          List.countP_eq_zero.mpr fun call hcall ↦
            (Bool.not_eq_true _).mpr (hturn call hcall)
        have hsince : sinceMark ArmEvent.isBoundary ArmEvent.isLeave (s.log ++ [.boundary]) = 0 :=
          sinceMark_concat_mark rfl
        refine ⟨?_, hzero.trans_le (Nat.zero_le _),
          h.capped.concat (hsince.trans_le (Nat.zero_le _))⟩
        exact hzero.trans (Nat.add_eq_zero_iff.mpr ⟨hsince, hnone⟩).symm
    | false =>
        have hstay : inner.evictionsThisTask = s.inner.evictionsThisTask := hzero.trans hturn.symm
        exact ⟨hstay.trans h.counted, hstay.trans_le h.le_cap, h.capped⟩
  · rw [if_pos hwidth] at hrun
    cases hrun
    exact ⟨h.counted, h.le_cap, h.capped⟩

theorem within_step {cap : UInt32} (hcap : arm.config.evictionCap = some cap) {action : ArmAction}
    (hturn : InTurn arm cap s action) (h : Within cap s) (hstep : step arm s action = some s') :
    Within cap s' := by
  cases action with
  | enter agent coalition ctx => exact within_enter hcap h hstep
  | proceed i => exact within_proceed hturn h hstep
  | observe required perBitSuccess => exact within_observe hturn h hstep

/-- In a run in which everything happens in turn, the count stays within the cap. -/
theorem within_run {cap : UInt32} (hcap : arm.config.evictionCap = some cap)
    {actions : List ArmAction} (hturn : AllInTurn arm cap s actions) (h : Within cap s)
    (hrun : run arm s actions = some s') : Within cap s' := by
  induction actions generalizing s with
  | nil =>
      cases hrun
      exact h
  | cons action actions ih =>
      obtain ⟨s₁, hstep, hrest⟩ := Option.bind_eq_some_iff.mp hrun
      exact ih (hturn.2 s₁ hstep) (within_step hcap hturn.1 h hstep) hrest

/-- If every leave is counted while there is room under the cap, and no outcome cuts off a leave
that has been counted, there are never more leaves between two outcomes than the cap allows. -/
theorem leaves_capped {batterySeed : UInt64} {config : PersistentAifConfig F} {inner : Inner aif}
    {cap : UInt32} {actions : List ArmAction}
    (hnew : PersistentAifArm.new aif batterySeed config = some (.ok (arm, inner)))
    (hcap : config.evictionCap = some cap) (hturn : AllInTurn arm cap (idle inner) actions)
    (hrun : run arm (idle inner) actions = some s) : Capped cap.toNat s.log := by
  obtain ⟨harm, hinner⟩ := PersistentAifArm.new_eq_ok hnew
  have hcap : arm.config.evictionCap = some cap := by
    rw [harm]
    exact hcap
  exact (within_run hcap hturn (within_idle hinner) hrun).capped

/-! ### A cap of one -/

section Sample

attribute [local instance] exactNumbers

/-- One leave to a task, and one bit to learn about. -/
def cappedOnce : PersistentAifConfig ℚ := { PersistentAifConfig.default with
  evictionCap := some 1
  nBits := 1 }

def cappedArm : PersistentAifArm ℚ := ⟨cappedOnce, by decide, by decide⟩

def cappedInner : Inner undecidedAif where
  agent :=
    { a := [[[0.45, 0.30], [0.05, 0.20], [0.50, 0.50]]]
      b := [[[[0.9, 1.0 - 0.9], [1.0 - 0.9, 0.9]]]]
      c := [[0.5, 0.5, 0.5]]
      d := [[0.5, 0.5]] }
  replay := []
  tasksObserved := 0
  decisionCounter := 0
  batterySeed := 0
  evictionsThisTask := 0
  evictedAt := fun _ ↦ none

theorem new_cappedOnce :
    PersistentAifArm.new undecidedAif 0 cappedOnce = some (.ok (cappedArm, cappedInner)) := rfl

/-- An agent is asked whether to leave the coalition that it is alone in. -/
def soloLeave : ArmAction :=
  .enter { id := 0, capabilities := 1, trust := 50 } [{ id := 0, capabilities := 1, trust := 50 }]
    { requiredCapabilities := 1 }

/-- A call that goes through its sections at once. -/
def throughout (i : Nat) : List ArmAction := List.replicate 3 (.proceed i)

/-- A leave, the outcome of the task, and another leave. -/
def oneAfterTheOther : List ArmAction :=
  soloLeave :: throughout 0 ++ .observe 1 [true] :: soloLeave :: throughout 1

/-- Two calls look at the cap before either of them has counted its leave. -/
def bothAtOnce : List ArmAction := soloLeave :: soloLeave :: throughout 0 ++ throughout 1

/-- What the callers see. -/
def logOf (actions : List ArmAction) : Option (List ArmEvent) :=
  (run cappedArm (idle cappedInner) actions).map (·.log)

theorem one_after_the_other_capped : ∃ s,
    run cappedArm (idle cappedInner) oneAfterTheOther = some s ∧
      s.log = [.returned true, .boundary, .returned true] ∧ Capped (1 : UInt32).toNat s.log := by
  have hlog : logOf oneAfterTheOther = some [.returned true, .boundary, .returned true] := by
    decide +kernel
  obtain ⟨s, hrun, hs⟩ := Option.map_eq_some_iff.mp hlog
  exact ⟨s, hrun, hs, leaves_capped new_cappedOnce rfl (by decide +kernel) hrun⟩

theorem both_at_once_exceed : ∃ s, PersistentAifArm.new undecidedAif 0 cappedOnce =
      some (.ok (cappedArm, cappedInner)) ∧
    cappedOnce.evictionCap = some 1 ∧ run cappedArm (idle cappedInner) bothAtOnce = some s ∧
    s.log = [.returned true, .returned true] ∧ ¬Capped (1 : UInt32).toNat s.log := by
  have hlog : logOf bothAtOnce = some [.returned true, .returned true] := by decide +kernel
  obtain ⟨s, hrun, hs⟩ := Option.map_eq_some_iff.mp hlog
  refine ⟨s, new_cappedOnce, rfl, hrun, hs, fun h ↦ ?_⟩
  rw [hs] at h
  exact absurd (h _ (List.infix_refl _) (by decide)) (by decide)

end Sample

end SharedArm
end Koalisi.Decision
