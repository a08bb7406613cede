import Mathlib.Logic.Function.Basic
import Koalisi.Lib.Fallible
import Koalisi.Lib.Histories
import Koalisi.Topology.Timestamp

/-!
# A clock that is shared

The clock is one atomic counter.  A tick and a reading are one atomic step each, but advancing is a
loop: the counter is loaded, and unless it has come far enough it is swapped for the timestamp if it
still is what was loaded.  Other threads can move the counter in between, and then the swap fails
and the loop starts again.

So a call that advances takes any number of steps among those of other threads.  Still the clock
answers as if each call was made at once (`clock_linearizes`); and since a swap fails only after the
counter has gone up, a call fails at most as often as its timestamp was ahead of the counter when it
was made (`advance_fails_at_most`).

The counter wraps, so all this is said up to the moment when the greatest timestamp is handed out.
-/

namespace Koalisi.Topology

open Koalisi.Lib Koalisi.Lib.Fallible

namespace Clock

/-! ## One call at a time -/

inductive Op where
  /-- Hand out the next timestamp. -/
  | tick
  | current
  /-- Move the clock at least to a timestamp. -/
  | advanceTo (timestamp : Timestamp)
deriving DecidableEq, Repr

/-- What a call does when it is made at once. -/
def apply (c : Clock) : Op → Timestamp × Clock
  | .tick => c.tick
  | .current => (c.current, c)
  | .advanceTo timestamp => (max c.current timestamp, ⟨max c.current timestamp⟩)

end Clock

/-! ## Many threads -/

/-- Where a thread is in a call that advances the clock. -/
inductive AdvanceStage where
  | idle
  | loading (timestamp : Timestamp)
  /-- It has loaded a value that is less than its timestamp. -/
  | swapping (timestamp loaded : Timestamp)
deriving DecidableEq, Repr

/-- A thread.  It does not read the other two fields. -/
structure ClockThread where
  stage : AdvanceStage
  /-- What the clock was at when the call was made. -/
  started : Timestamp
  /-- How many swaps of the call have failed. -/
  failed : Nat
deriving DecidableEq, Repr

/-- A clock, the threads that use it, and the calls that they made. -/
structure SharedClock where
  clock : Clock
  threads : Nat → ClockThread
  history : List (Call Clock.Op Timestamp)

namespace SharedClock

/-- What a thread can do; loading and swapping are the steps of the loop of `advance_to`. -/
inductive Action where
  | tick
  | current
  | advanceTo (thread : Nat) (timestamp : Timestamp)
  | load (thread : Nat)
  | compareExchange (thread : Nat)
deriving DecidableEq, Repr

/-- A clock that nobody uses yet. -/
def start (value : U64) : SharedClock where
  clock := .startingAt value
  threads _ := ⟨.idle, 0, 0⟩
  history := []

/-- A call has its effect, and is answered. -/
def answer (s : SharedClock) (op : Clock.Op) (res : Timestamp) (clock : Clock) : SharedClock :=
  { s with clock := clock, history := s.history ++ [⟨op, res⟩] }

/-- A thread has got somewhere. -/
def move (s : SharedClock) (thread : Nat) (t : ClockThread) : SharedClock :=
  { s with threads := Function.update s.threads thread t }

/-- One atomic step, if it is possible. -/
def step (s : SharedClock) : Action → Option SharedClock
  | .tick =>
      let (timestamp, clock) := s.clock.tick
      some (s.answer .tick timestamp clock)
  | .current => some (s.answer .current s.clock.current s.clock)
  | .advanceTo i timestamp =>
      match (s.threads i).stage with
      | .idle => some (s.move i ⟨.loading timestamp, s.clock.current, 0⟩)
      | _ => none
  | .load i =>
      let t := s.threads i
      match t.stage with
      | .loading timestamp =>
          let current := s.clock.current
          if timestamp ≤ current then
            some ((s.answer (.advanceTo timestamp) current s.clock).move i
              { t with stage := .idle })
          else some (s.move i { t with stage := .swapping timestamp current })
      | _ => none
  | .compareExchange i =>
      let t := s.threads i
      match t.stage with
      | .swapping timestamp loaded =>
          if s.clock.current = loaded then
            some ((s.answer (.advanceTo timestamp) timestamp ⟨timestamp⟩).move i
              { t with stage := .idle })
          else some (s.move i ⟨.loading timestamp, t.started, t.failed + 1⟩)
      | _ => none

/-- Steps one after the other. -/
def run (actions : List Action) (s : SharedClock) : Option SharedClock := actions.foldlM step s

/-- Nobody was handed the greatest timestamp, after which the counter wraps. -/
def Unwrapped (s : SharedClock) : Prop := ⟨.tick, Timestamp.max⟩ ∉ s.history

end SharedClock

/-! ## What a step does -/

namespace SharedClock

/-- The steps, one by one. -/
inductive Takes (s : SharedClock) : SharedClock → Prop where
  | answered (op : Clock.Op) :
      Takes s (s.answer op (s.clock.apply op).1 (s.clock.apply op).2)
  | called (i : Nat) (timestamp : Timestamp) (h : (s.threads i).stage = .idle) :
      Takes s (s.move i ⟨.loading timestamp, s.clock.current, 0⟩)
  /-- The clock has come far enough. -/
  | reached (i : Nat) (timestamp : Timestamp) (h : (s.threads i).stage = .loading timestamp)
      (hle : timestamp ≤ s.clock.current) :
      Takes s ((s.answer (.advanceTo timestamp) s.clock.current s.clock).move i
        { s.threads i with stage := .idle })
  | loaded (i : Nat) (timestamp : Timestamp) (h : (s.threads i).stage = .loading timestamp)
      (hlt : s.clock.current < timestamp) :
      Takes s (s.move i { s.threads i with stage := .swapping timestamp s.clock.current })
  | swapped (i : Nat) (timestamp : Timestamp)
      (h : (s.threads i).stage = .swapping timestamp s.clock.current) :
      Takes s ((s.answer (.advanceTo timestamp) timestamp ⟨timestamp⟩).move i
        { s.threads i with stage := .idle })
  /-- The clock was moved in between. -/
  | missed (i : Nat) (timestamp loaded : Timestamp)
      (h : (s.threads i).stage = .swapping timestamp loaded) (hne : s.clock.current ≠ loaded) :
      Takes s (s.move i ⟨.loading timestamp, (s.threads i).started, (s.threads i).failed + 1⟩)

variable {s s' : SharedClock}

theorem takes_of_step {action : Action} (h : s.step action = some s') : s.Takes s' := by
  cases action with
  | tick =>
      cases h
      exact .answered .tick
  | current =>
      cases h
      exact .answered .current
  | advanceTo i timestamp =>
      simp only [step] at h
      split at h
      · next hidle =>
          cases h
          exact .called i timestamp hidle
      · cases h
  | load i =>
      simp only [step] at h
      split at h
      · next timestamp hloading =>
          split at h
          · next hle =>
              cases h
              exact .reached i timestamp hloading hle
          · next hlt =>
              cases h
              exact .loaded i timestamp hloading (not_le.mp hlt)
      · cases h
  | compareExchange i =>
      simp only [step] at h
      split at h
      · next timestamp loaded hswapping =>
          split at h
          · next heq =>
              cases h
              exact .swapped i timestamp (heq ▸ hswapping)
          · next hne =>
              cases h
              exact .missed i timestamp loaded hswapping hne
      · cases h

@[simp] theorem move_clock (i : Nat) (t : ClockThread) : (s.move i t).clock = s.clock := rfl

@[simp] theorem move_history (i : Nat) (t : ClockThread) : (s.move i t).history = s.history := rfl

/-! ## As if at once -/

/-- What a thread loaded was too little. -/
def Behind (t : ClockThread) : Prop :=
  ∀ timestamp loaded, t.stage = .swapping timestamp loaded → loaded < timestamp

/-- The history so far is that of a clock which answers one call at a time. -/
structure Linear (value : U64) (s : SharedClock) : Prop where
  legal : Legal Clock.apply (.startingAt value) s.history s.clock
  behind : ∀ i, Behind (s.threads i)

theorem linear_start (value : U64) : (start value).Linear value where
  legal := .nil _
  behind _ _ _ h := nomatch h

/-- A thread moves. -/
theorem Linear.move {value : U64} (h : s.Linear value) (i : Nat) {t : ClockThread}
    (ht : Behind t) : (s.move i t).Linear value where
  legal := h.legal
  behind j := by
    change Behind (Function.update s.threads i t j)
    by_cases hj : j = i
    · subst hj
      rwa [Function.update_self]
    · rw [Function.update_of_ne hj]
      exact h.behind j

theorem Linear.answer {value : U64} (h : s.Linear value) {op : Clock.Op} {res : Timestamp}
    {clock : Clock} (happly : s.clock.apply op = (res, clock)) :
    (s.answer op res clock).Linear value where
  legal := by
    have hlegal := h.legal.concat op
    rwa [happly] at hlegal
  behind := h.behind

theorem Linear.takes {value : U64} (h : s.Linear value) (htakes : s.Takes s') :
    s'.Linear value := by
  cases htakes with
  | answered op => exact h.answer rfl
  | called i timestamp hidle => exact h.move i fun _ _ hstage ↦ nomatch hstage
  | reached i timestamp hloading hle =>
      have hmax : max s.clock.current timestamp = s.clock.current := max_eq_left hle
      refine (h.answer ?_).move i fun _ _ hstage ↦ nomatch hstage
      rw [Clock.apply, hmax]
      rfl
  | loaded i timestamp hloading hlt =>
      refine h.move i fun timestamp' loaded hstage ↦ ?_
      cases hstage
      exact hlt
  | swapped i timestamp hswapping =>
      have hmax : max s.clock.current timestamp = timestamp :=
        max_eq_right (h.behind i _ _ hswapping).le
      refine (h.answer ?_).move i fun _ _ hstage ↦ nomatch hstage
      rw [Clock.apply, hmax]
  | missed i timestamp loaded hswapping hne => exact h.move i fun _ _ hstage ↦ nomatch hstage

theorem linear_run {value : U64} {actions : List Action}
    (h : (start value).run actions = some s) : s.Linear value :=
  foldlM_inv (P := Linear value) (fun _ _ _ _ hs hstep ↦ hs.takes (takes_of_step hstep))
    (linear_start value) h

end SharedClock

/-! ## The order of answers -/

/-- A call that was answered before another got no later timestamp, and a tick an earlier one. -/
def Clock.Precedes (c c' : Call Clock.Op Timestamp) : Prop :=
  c.res ≤ c'.res ∧ (c.op = .tick → c.res < c'.res)

/-- What a call leaves behind: the clock is at its answer or beyond. -/
structure Clock.Leaves (c : Call Clock.Op Timestamp) (clock : Clock) : Prop where
  le : c.res ≤ clock.current
  lt : c.op = .tick → c.res < clock.current
  reaches : ∀ timestamp, c.op = .advanceTo timestamp → timestamp ≤ c.res

namespace Clock

/-- A tick makes the counter go up, if it does not wrap. -/
theorem lt_tick {clock : Clock} (h : clock.current ≠ Timestamp.max) :
    clock.current < clock.tick.2.current := by
  have hlt : clock.current.val < 2 ^ 64 - 1 := by
    have hle := Timestamp.le_max clock.current
    exact lt_of_le_of_ne hle fun heq ↦ h (Fin.ext heq)
  rw [Fin.lt_def, tick_val hlt]
  exact Nat.lt_succ_self _

/-- No call moves the clock back, if it does not wrap. -/
theorem current_le_apply {clock : Clock} {op : Op}
    (h : (⟨op, (clock.apply op).1⟩ : Call Op Timestamp) ≠ ⟨.tick, Timestamp.max⟩) :
    clock.current ≤ (clock.apply op).2.current := by
  cases op with
  | tick => exact (lt_tick fun heq ↦ h (congrArg (Call.mk Op.tick) heq)).le
  | current => exact le_rfl
  | advanceTo timestamp => exact le_max_left _ _

theorem current_le_res (clock : Clock) (op : Op) : clock.current ≤ (clock.apply op).1 := by
  cases op with
  | tick => exact le_rfl
  | current => exact le_rfl
  | advanceTo timestamp => exact le_max_left _ _

theorem leaves_apply {clock : Clock} {op : Op}
    (h : (⟨op, (clock.apply op).1⟩ : Call Op Timestamp) ≠ ⟨.tick, Timestamp.max⟩) :
    Leaves ⟨op, (clock.apply op).1⟩ (clock.apply op).2 where
  le := by
    cases op with
    | tick => exact current_le_apply h
    | current => exact le_rfl
    | advanceTo timestamp => exact le_rfl
  lt htick := by
    change op = .tick at htick
    subst htick
    exact lt_tick fun heq ↦ h (congrArg (Call.mk Op.tick) heq)
  reaches timestamp hop := by
    change op = .advanceTo timestamp at hop
    subst hop
    exact le_max_right _ _

theorem Leaves.apply {c : Call Op Timestamp} {clock : Clock} (hc : Leaves c clock) {op : Op}
    (h : (⟨op, (clock.apply op).1⟩ : Call Op Timestamp) ≠ ⟨.tick, Timestamp.max⟩) :
    Leaves c (clock.apply op).2 where
  le := hc.le.trans (current_le_apply h)
  lt htick := (hc.lt htick).trans_le (current_le_apply h)
  reaches := hc.reaches

/-- In a legal history that does not wrap, the answers go up. -/
theorem precedes_of_legal {clock clock' : Clock} {history : List (Call Op Timestamp)}
    (h : Legal apply clock history clock')
    (hunwrapped : (⟨.tick, Timestamp.max⟩ : Call Op Timestamp) ∉ history) :
    history.Pairwise Precedes ∧ ∀ c ∈ history, Leaves c clock' := by
  refine h.pairwise (· ≠ ⟨.tick, Timestamp.max⟩) (fun clock op hok ↦ leaves_apply hok)
    (fun c clock op hok hc ↦ hc.apply hok) (fun c clock op hok hc ↦ ?_) fun c hc heq ↦ ?_
  · have hle := clock.current_le_res op
    exact ⟨hc.le.trans hle, fun htick ↦ (hc.lt htick).trans_le hle⟩
  · exact hunwrapped (heq ▸ hc)

end Clock

/-- **A shared clock.**  However the steps of its threads alternate, the clock answers as if every
call was made at once.  So as long as it has not wrapped, timestamps are handed out in ascending
order, each to one tick, and a call that advances to a timestamp is answered with no earlier one,
which no later call is behind. -/
theorem clock_linearizes (value : U64) {actions : List SharedClock.Action} {fin : SharedClock}
    (h : (SharedClock.start value).run actions = some fin) :
    Legal Clock.apply (.startingAt value) fin.history fin.clock ∧
      (fin.Unwrapped → fin.history.Pairwise Clock.Precedes ∧
        ∀ c ∈ fin.history, Clock.Leaves c fin.clock) := by
  have hlegal := (SharedClock.linear_run h).legal
  exact ⟨hlegal, Clock.precedes_of_legal hlegal⟩

/-- A tick comes between the load and the swap of a call, which then tries again. -/
def overtaken : List SharedClock.Action :=
  [.advanceTo 0 5, .load 0, .tick, .compareExchange 0, .load 0]

theorem exists_overtaken : ∃ fin, (SharedClock.start 3).run overtaken = some fin ∧
    fin.Unwrapped ∧ fin.clock = ⟨4⟩ ∧ fin.threads 0 = ⟨.swapping 5 4, 3, 1⟩ ∧
      fin.history = [⟨.tick, 3⟩] := by
  have hcheck : ((SharedClock.start 3).run overtaken).map
      (fun fin ↦ (fin.clock, fin.threads 0, fin.history)) =
        some (⟨4⟩, ⟨.swapping 5 4, 3, 1⟩, [⟨.tick, 3⟩]) := by
    decide
  obtain ⟨fin, hfin, hcheck⟩ := Option.map_eq_some_iff.mp hcheck
  simp only [Prod.mk.injEq] at hcheck
  obtain ⟨hclock, hthread, hhistory⟩ := hcheck
  refine ⟨fin, hfin, ?_, hclock, hthread, hhistory⟩
  rw [SharedClock.Unwrapped, hhistory]
  decide

theorem overtaken_linearizes : ∃ fin, (SharedClock.start 3).run overtaken = some fin ∧
    Legal Clock.apply (.startingAt 3) fin.history fin.clock ∧
      fin.history.Pairwise Clock.Precedes := by
  obtain ⟨fin, hfin, hunwrapped, -⟩ := exists_overtaken
  obtain ⟨hlegal, horder⟩ := clock_linearizes 3 hfin
  exact ⟨fin, hfin, hlegal, (horder hunwrapped).1⟩

/-! ## How often a swap fails -/

/-- How far a call has come: each failed swap shows that the counter has gone up by one at least
since the value before was loaded, which was less than the timestamp. -/
def ClockThread.Progress (clock : Clock) (t : ClockThread) : Prop :=
  match t.stage with
  | .idle => True
  | .loading timestamp => t.started.val + t.failed ≤ clock.current.val ∧
      (t.failed = 0 ∨ t.started.val + t.failed ≤ timestamp.val)
  | .swapping timestamp loaded => t.started.val + t.failed ≤ loaded.val ∧
      loaded ≤ clock.current ∧ loaded < timestamp

theorem ClockThread.Progress.mono {clock clock' : Clock} {t : ClockThread} (h : t.Progress clock)
    (hle : clock.current ≤ clock'.current) : t.Progress clock' := by
  obtain ⟨stage, started, failed⟩ := t
  cases stage with
  | idle => trivial
  | loading timestamp => exact ⟨h.1.trans hle, h.2⟩
  | swapping timestamp loaded => exact ⟨h.1, h.2.1.trans hle, h.2.2⟩

namespace SharedClock

variable {s s' : SharedClock}

/-- Every thread progresses. -/
def Progresses (s : SharedClock) : Prop := ∀ i, (s.threads i).Progress s.clock

theorem Progresses.move (h : s.Progresses) (i : Nat) {t : ClockThread}
    (ht : t.Progress s.clock) : (s.move i t).Progresses := by
  intro j
  change (Function.update s.threads i t j).Progress s.clock
  by_cases hj : j = i
  · subst hj
    rwa [Function.update_self]
  · rw [Function.update_of_ne hj]
    exact h j

theorem Progresses.answer (h : s.Progresses) (op : Clock.Op) (res : Timestamp) {clock : Clock}
    (hle : s.clock.current ≤ clock.current) : (s.answer op res clock).Progresses :=
  fun i ↦ (h i).mono hle

/-- Nothing is taken back from the history. -/
theorem Takes.history_subset (h : s.Takes s') : s.history ⊆ s'.history := by
  cases h with
  | answered | reached | swapped => exact List.subset_append_left _ _
  | called | loaded | missed => exact List.Subset.refl _

theorem Progresses.takes (h : s.Progresses) (htakes : s.Takes s') (hunwrapped : s'.Unwrapped) :
    s'.Progresses := by
  cases htakes with
  | answered op =>
      refine h.answer _ _ (Clock.current_le_apply fun heq ↦ hunwrapped ?_)
      rw [← heq]
      exact List.mem_append_right _ (List.mem_singleton_self _)
  | called i timestamp hidle => exact h.move i ⟨le_rfl, Or.inl rfl⟩
  | reached i timestamp hloading hle =>
      exact (h.answer _ _ le_rfl).move i trivial
  | loaded i timestamp hloading hlt =>
      have hi := h i
      rw [ClockThread.Progress, hloading] at hi
      exact h.move i ⟨hi.1, le_rfl, hlt⟩
  | swapped i timestamp hswapping =>
      have hi := h i
      rw [ClockThread.Progress, hswapping] at hi
      exact (h.answer _ _ hi.2.2.le).move i trivial
  | missed i timestamp loaded hswapping hne =>
      have hi := h i
      rw [ClockThread.Progress, hswapping] at hi
      obtain ⟨hstarted, hle, hlt⟩ := hi
      -- the counter is no longer what was loaded, so it is more
      have hmoved : loaded < s.clock.current := lt_of_le_of_ne hle (Ne.symm hne)
      rw [Fin.lt_def] at hmoved hlt
      refine h.move i ⟨?_, Or.inr ?_⟩
      · change (s.threads i).started.val + ((s.threads i).failed + 1) ≤ _
        omega
      · change (s.threads i).started.val + ((s.threads i).failed + 1) ≤ _
        omega

theorem progresses_run {value : U64} {actions : List Action}
    (h : (start value).run actions = some s) (hunwrapped : s.Unwrapped) : s.Progresses := by
  have hrun := foldlM_inv (P := fun s ↦ s.Unwrapped → s.Progresses)
    (fun _ _ s s' hs hstep hunwrapped ↦ by
      have htakes := takes_of_step hstep
      exact (hs fun hmem ↦ hunwrapped (htakes.history_subset hmem)).takes htakes hunwrapped)
    (fun _ _ ↦ trivial) h
  exact hrun hunwrapped

end SharedClock

/-- **Advancing returns.**  Whatever other threads do, as long as the clock has not wrapped, the
swaps of a call that advances to a timestamp fail at most as often as the timestamp was ahead when
the call was made; a swap that is about to be tried is not the last of these to fail, and after
that many the next load finds the clock far enough. -/
theorem advance_fails_at_most (value : U64) {actions : List SharedClock.Action}
    {fin : SharedClock} (h : (SharedClock.start value).run actions = some fin)
    (hunwrapped : fin.Unwrapped) (i : Nat) (timestamp : Timestamp) :
    ((fin.threads i).stage = .loading timestamp →
      (fin.threads i).failed ≤ timestamp.val - (fin.threads i).started.val ∧
        ((fin.threads i).failed = timestamp.val - (fin.threads i).started.val →
          ∃ fin', fin.step (.load i) = some fin' ∧ (fin'.threads i).stage = .idle ∧
            fin'.history = fin.history ++ [⟨.advanceTo timestamp, fin.clock.current⟩])) ∧
    ∀ loaded, (fin.threads i).stage = .swapping timestamp loaded →
      (fin.threads i).failed < timestamp.val - (fin.threads i).started.val := by
  have hi := SharedClock.progresses_run h hunwrapped i
  constructor
  · intro hstage
    rw [ClockThread.Progress, hstage] at hi
    refine ⟨by omega, fun heq ↦ ?_⟩
    have hle : timestamp ≤ fin.clock.current := by
      rw [Fin.le_def]
      omega
    refine ⟨(fin.answer (.advanceTo timestamp) fin.clock.current fin.clock).move i
      { fin.threads i with stage := .idle }, ?_, ?_, rfl⟩
    · simp only [SharedClock.step, hstage, if_pos hle]
    · change ClockThread.stage (Function.update fin.threads i _ i) = _
      rw [Function.update_self]
  · intro loaded hstage
    rw [ClockThread.Progress, hstage] at hi
    obtain ⟨hstarted, -, hlt⟩ := hi
    rw [Fin.lt_def] at hlt
    omega

/-- One swap has failed, of the two that could. -/
theorem overtaken_fails_once : ∃ fin, (SharedClock.start 3).run overtaken = some fin ∧
    (fin.threads 0).failed = 1 ∧ (fin.threads 0).failed < 5 - 3 := by
  obtain ⟨fin, hfin, hunwrapped, -, hthread, -⟩ := exists_overtaken
  have hfailed := (advance_fails_at_most 3 hfin hunwrapped 0 5).2 4
  rw [hthread] at hfailed
  refine ⟨fin, hfin, ?_, ?_⟩
  · rw [hthread]
  · rw [hthread]
    exact hfailed rfl

end Koalisi.Topology
