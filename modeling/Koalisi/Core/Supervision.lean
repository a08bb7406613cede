import Mathlib.Data.List.TakeWhile
import Mathlib.Order.Basic
import Koalisi.Lib.Fallible

/-!
# Restarting a task

A supervisor runs instances of a task one after the other.  When one panics it starts the
next, but not more often than so many times within a window; then it gives up and cancels
its token.  A task that completes is not started again, and neither is one whose token is
cancelled.

The window slides: the supervisor keeps the times of its restarts, and forgets those that
are older than the window when the next panic comes.  Times are counted from some moment,
and do not go back.
-/

namespace Koalisi.Core

open Koalisi.Lib.Fallible

/-- How an instance ends. -/
inductive JoinResult where
  | completed
  | aborted
  /-- It panicked, and this is the time. -/
  | panicked (now : Nat)
deriving DecidableEq, Repr

/-- Where the supervisor stands. -/
inductive Supervising where
  /-- At the head of its loop. -/
  | starting
  /-- It waits for an instance to end. -/
  | running
  | stopped
deriving DecidableEq, Repr

/-- A supervisor with its token, and a record of what it did. -/
structure Supervisor where
  restartLimit : Nat
  window : Nat
  /-- The times of the restarts that are not forgotten, oldest first. -/
  restarts : List Nat
  phase : Supervising
  cancelled : Bool
  /-- The time of the last panic. -/
  clock : Nat
  /-- The times of all restarts. -/
  restarted : List Nat
  /-- How many instances were started. -/
  instances : Nat
deriving DecidableEq, Repr

namespace Supervisor

/-- What can happen. -/
inductive Action where
  /-- Somebody cancels the token. -/
  | cancel
  /-- The supervisor looks at the token and starts an instance. -/
  | start
  /-- The instance ends. -/
  | join (result : JoinResult)
deriving DecidableEq, Repr

def new (restartLimit window : Nat) : Supervisor where
  restartLimit
  window
  restarts := []
  phase := .starting
  cancelled := false
  clock := 0
  restarted := []
  instances := 0

/-- Forget the restarts that are older than the window. -/
def prune (s : Supervisor) (now : Nat) : List Nat :=
  s.restarts.dropWhile fun front ↦ s.window < now - front

/-- A panic that was not a cancel: restart, or give up. -/
def onPanic (s : Supervisor) (now : Nat) : Supervisor :=
  let restarts := s.prune now
  if s.restartLimit ≤ restarts.length then
    { s with restarts, clock := now, cancelled := true, phase := .stopped }
  else
    { s with
      restarts := restarts ++ [now]
      clock := now
      restarted := s.restarted ++ [now]
      phase := .starting }

/-- One action, if it is possible. -/
def step (s : Supervisor) : Action → Option Supervisor
  | .cancel => some { s with cancelled := true }
  | .start =>
      if s.phase = .starting then
        if s.cancelled then some { s with phase := .stopped }
        else some { s with phase := .running, instances := s.instances + 1 }
      else none
  | .join result =>
      if s.phase = .running then
        match result with
        | .completed => some { s with phase := .stopped }
        | .aborted => some { s with phase := .stopped }
        | .panicked now =>
            -- the clock is monotonic
            if now < s.clock then none
            else if s.cancelled then some { s with clock := now, phase := .stopped }
            else some (s.onPanic now)
      else none

/-- Actions one after the other. -/
def run (actions : List Action) (s : Supervisor) : Option Supervisor := actions.foldlM step s

/-- How many restarts there were in a window from a time on. -/
def restartsFrom (s : Supervisor) (a : Nat) : Nat :=
  s.restarted.countP fun t ↦ a ≤ t ∧ t ≤ a + s.window

/-- How many restarts there were in the window that ends at a time. -/
def restartsUntil (s : Supervisor) (now : Nat) : Nat :=
  s.restarted.countP fun t ↦ t ≤ now ∧ now ≤ t + s.window

/-! ## The window -/

/-- Of sorted times, those that are not forgotten are those within the window. -/
theorem dropWhile_eq_filter {window now : Nat} {times : List Nat} (h : times.Pairwise (· ≤ ·)) :
    times.dropWhile (fun t ↦ window < now - t) = times.filter fun t ↦ now ≤ t + window := by
  induction times with
  | nil => rfl
  | cons t times ih =>
      obtain ⟨hle, htimes⟩ := List.pairwise_cons.mp h
      by_cases hold : window < now - t
      · have hout : ¬now ≤ t + window := by omega
        rw [List.dropWhile_cons_of_pos (by simpa using hold), ih htimes,
          List.filter_cons_of_neg (by simpa using hout)]
      · have hall : ∀ t' ∈ t :: times, now ≤ t' + window := by
          intro t' ht'
          rcases List.mem_cons.mp ht' with rfl | ht'
          · omega
          · have := hle t' ht'
            omega
        rw [List.dropWhile_cons_of_neg (by simpa using hold), List.filter_eq_self.mpr]
        exact fun t' ht' ↦ decide_eq_true (hall t' ht')

/-- What the supervisor remembers is what may still count. -/
structure Remembers (s : Supervisor) : Prop where
  /-- What was forgotten is older than the window. -/
  forgotten : ∃ old, s.restarted = old ++ s.restarts ∧ ∀ t ∈ old, t + s.window < s.clock
  sorted : s.restarts.Pairwise (· ≤ ·)
  past : ∀ t ∈ s.restarts, t ≤ s.clock
  bounded : ∀ a, s.restartsFrom a ≤ s.restartLimit

variable {s s' : Supervisor} {now : Nat}

namespace Remembers

theorem restarted_le (h : s.Remembers) : ∀ t ∈ s.restarted, t ≤ s.clock := by
  obtain ⟨old, hrestarted, hold⟩ := h.forgotten
  intro t ht
  rw [hrestarted] at ht
  rcases List.mem_append.mp ht with ht | ht
  · have := hold t ht
    omega
  · exact h.past t ht

/-- What is left after pruning is what counts at the time of the panic. -/
theorem prune_eq (h : s.Remembers) : s.prune now = s.restarts.filter fun t ↦ now ≤ t + s.window :=
  dropWhile_eq_filter h.sorted

theorem length_prune (h : s.Remembers) (hnow : s.clock ≤ now) :
    (s.prune now).length = s.restartsUntil now := by
  obtain ⟨old, hrestarted, hold⟩ := h.forgotten
  have hout : old.countP (fun t ↦ t ≤ now ∧ now ≤ t + s.window) = 0 := by
    refine List.countP_eq_zero.mpr fun t ht ↦ ?_
    have := hold t ht
    simp only [decide_eq_true_eq, not_and]
    omega
  rw [h.prune_eq, ← List.countP_eq_length_filter, restartsUntil, hrestarted, List.countP_append,
    hout, Nat.zero_add]
  refine List.countP_congr fun t ht ↦ ?_
  have := h.past t ht
  simp only [decide_eq_true_eq]
  omega

/-- A restart that is within budget keeps every window within budget. -/
theorem countP_concat (h : s.Remembers) (hnow : s.clock ≤ now)
    (hbudget : s.restartsUntil now < s.restartLimit) (a : Nat) :
    (s.restarted ++ [now]).countP (fun t ↦ a ≤ t ∧ t ≤ a + s.window) ≤ s.restartLimit := by
  rw [List.countP_append, List.countP_singleton]
  by_cases hin : a ≤ now ∧ now ≤ a + s.window
  · have hmono : s.restartsFrom a ≤ s.restartsUntil now := by
      refine List.countP_mono_left fun t ht hta ↦ ?_
      simp only [decide_eq_true_eq] at hta ⊢
      have hpast : t ≤ s.clock := h.restarted_le t ht
      omega
    rw [if_pos (decide_eq_true hin)]
    exact Nat.lt_of_le_of_lt hmono hbudget
  · rw [if_neg (by simpa using hin), Nat.add_zero]
    exact h.bounded a

/-- Pruning forgets only what is older than the window. -/
theorem forgotten_prune (h : s.Remembers) (hnow : s.clock ≤ now) :
    ∃ old, s.restarted = old ++ s.prune now ∧ ∀ t ∈ old, t + s.window < now := by
  obtain ⟨old, hrestarted, hold⟩ := h.forgotten
  refine ⟨old ++ s.restarts.takeWhile fun front ↦ s.window < now - front, ?_, fun t ht ↦ ?_⟩
  · rw [List.append_assoc, prune, List.takeWhile_append_dropWhile, hrestarted]
  · rcases List.mem_append.mp ht with ht | ht
    · have := hold t ht
      omega
    · have := List.mem_takeWhile_imp ht
      simp only [decide_eq_true_eq] at this
      omega

theorem onPanic (h : s.Remembers) (hnow : s.clock ≤ now) : (s.onPanic now).Remembers := by
  have hsub : (s.prune now).Sublist s.restarts := List.dropWhile_sublist _
  have hsorted : (s.prune now).Pairwise (· ≤ ·) := h.sorted.sublist hsub
  have hpast : ∀ t ∈ s.prune now, t ≤ now := fun t ht ↦ Nat.le_trans (h.past t (hsub.mem ht)) hnow
  obtain ⟨old, hrestarted, hold⟩ := h.forgotten_prune hnow
  unfold Supervisor.onPanic
  dsimp only
  split
  · exact ⟨⟨old, hrestarted, hold⟩, hsorted, hpast, h.bounded⟩
  · next hbudget =>
      rw [h.length_prune hnow, Nat.not_le] at hbudget
      refine ⟨⟨old, ?_, hold⟩, ?_, ?_, h.countP_concat hnow hbudget⟩
      · change s.restarted ++ [now] = old ++ (s.prune now ++ [now])
        rw [hrestarted, List.append_assoc]
      · refine List.pairwise_append.mpr ⟨hsorted, List.pairwise_singleton _ _, fun t ht t' ht' ↦ ?_⟩
        cases List.mem_singleton.mp ht'
        exact hpast t ht
      · intro t ht
        rcases List.mem_append.mp ht with ht | ht
        · exact hpast t ht
        · exact Nat.le_of_eq (List.mem_singleton.mp ht)

end Remembers

/-! ## Steps -/

/-- What a step can do. -/
theorem step_cases {action : Action} (h : s.step action = some s') :
    (action = .cancel ∧ s' = { s with cancelled := true }) ∨
    (action = .start ∧ s.phase = .starting ∧ s.cancelled = true ∧
      s' = { s with phase := .stopped }) ∨
    (action = .start ∧ s.phase = .starting ∧ s.cancelled = false ∧
      s' = { s with phase := .running, instances := s.instances + 1 }) ∨
    ((action = .join .completed ∨ action = .join .aborted) ∧ s.phase = .running ∧
      s' = { s with phase := .stopped }) ∨
    (∃ now, action = .join (.panicked now) ∧ s.phase = .running ∧ s.clock ≤ now ∧
      s.cancelled = true ∧ s' = { s with clock := now, phase := .stopped }) ∨
    (∃ now, action = .join (.panicked now) ∧ s.phase = .running ∧ s.clock ≤ now ∧
      s.cancelled = false ∧ s' = s.onPanic now) := by
  cases action with
  | cancel =>
      cases h
      exact Or.inl ⟨rfl, rfl⟩
  | start =>
      simp only [step] at h
      split at h
      · next hphase =>
          split at h
          · next hcancelled =>
              cases h
              exact Or.inr (Or.inl ⟨rfl, hphase, hcancelled, rfl⟩)
          · next hcancelled =>
              cases h
              exact Or.inr (Or.inr (Or.inl
                ⟨rfl, hphase, (Bool.not_eq_true _).mp hcancelled, rfl⟩))
      · cases h
  | join result =>
      simp only [step] at h
      split at h
      · next hphase =>
          cases result with
          | completed =>
              cases h
              exact Or.inr (Or.inr (Or.inr (Or.inl ⟨Or.inl rfl, hphase, rfl⟩)))
          | aborted =>
              cases h
              exact Or.inr (Or.inr (Or.inr (Or.inl ⟨Or.inr rfl, hphase, rfl⟩)))
          | panicked now =>
              simp only at h
              split at h
              · cases h
              · next hnow =>
                  split at h
                  · next hcancelled =>
                      cases h
                      exact Or.inr (Or.inr (Or.inr (Or.inr (Or.inl
                        ⟨now, rfl, hphase, Nat.le_of_not_lt hnow, hcancelled, rfl⟩))))
                  · next hcancelled =>
                      cases h
                      exact Or.inr (Or.inr (Or.inr (Or.inr (Or.inr ⟨now, rfl, hphase,
                        Nat.le_of_not_lt hnow, (Bool.not_eq_true _).mp hcancelled, rfl⟩))))
      · cases h

/-- Time passes. -/
theorem Remembers.later (h : s.Remembers) (hnow : s.clock ≤ now) :
    ({ s with clock := now, phase := .stopped } : Supervisor).Remembers := by
  obtain ⟨old, hrestarted, hold⟩ := h.forgotten
  refine ⟨⟨old, hrestarted, fun t ht ↦ Nat.lt_of_lt_of_le (hold t ht) hnow⟩, h.sorted,
    fun t ht ↦ Nat.le_trans (h.past t ht) hnow, h.bounded⟩

theorem Remembers.step (h : s.Remembers) {action : Action} (hstep : s.step action = some s') :
    s'.Remembers := by
  rcases step_cases hstep with ⟨-, rfl⟩ | ⟨-, -, -, rfl⟩ | ⟨-, -, -, rfl⟩ | ⟨-, -, rfl⟩ |
    ⟨now, -, -, hnow, -, rfl⟩ | ⟨now, -, -, hnow, -, rfl⟩
  · exact ⟨h.forgotten, h.sorted, h.past, h.bounded⟩
  · exact ⟨h.forgotten, h.sorted, h.past, h.bounded⟩
  · exact ⟨h.forgotten, h.sorted, h.past, h.bounded⟩
  · exact ⟨h.forgotten, h.sorted, h.past, h.bounded⟩
  · exact h.later hnow
  · exact h.onPanic hnow

/-- A supervisor whose configuration does not change. -/
def Configured (restartLimit window : Nat) (s : Supervisor) : Prop :=
  s.restartLimit = restartLimit ∧ s.window = window

theorem configured_onPanic :
    (s.onPanic now).restartLimit = s.restartLimit ∧ (s.onPanic now).window = s.window := by
  unfold onPanic
  dsimp only
  split
  · exact ⟨rfl, rfl⟩
  · exact ⟨rfl, rfl⟩

theorem Configured.step {restartLimit window : Nat} (h : s.Configured restartLimit window)
    {action : Action} (hstep : s.step action = some s') : s'.Configured restartLimit window := by
  rcases step_cases hstep with ⟨-, rfl⟩ | ⟨-, -, -, rfl⟩ | ⟨-, -, -, rfl⟩ | ⟨-, -, rfl⟩ |
    ⟨now, -, -, -, -, rfl⟩ | ⟨now, -, -, -, -, rfl⟩
  · exact h
  · exact h
  · exact h
  · exact h
  · exact h
  · exact ⟨configured_onPanic.1.trans h.1, configured_onPanic.2.trans h.2⟩

/-! ## The end -/

/-- The supervisor starts no more instances. -/
def Over (s : Supervisor) : Prop := s.phase = .stopped ∨ s.cancelled = true

theorem Over.step (h : s.Over) {action : Action} (hstep : s.step action = some s') :
    s'.Over ∧ s'.instances = s.instances ∧ s'.restarted = s.restarted := by
  have hnot {phase : Supervising} (hphase : s.phase = phase) (hcancelled : s.cancelled = false)
      (hne : phase ≠ .stopped) : False := by
    rcases h with h | h
    · exact hne (hphase.symm.trans h)
    · exact Bool.false_ne_true (hcancelled.symm.trans h)
  rcases step_cases hstep with ⟨-, rfl⟩ | ⟨-, -, -, rfl⟩ | ⟨-, hphase, hcancelled, -⟩ |
    ⟨-, -, rfl⟩ | ⟨now, -, -, -, -, rfl⟩ | ⟨now, -, hphase, -, hcancelled, -⟩
  · exact ⟨Or.inr rfl, rfl, rfl⟩
  · exact ⟨Or.inl rfl, rfl, rfl⟩
  · exact (hnot hphase hcancelled (by decide)).elim
  · exact ⟨Or.inl rfl, rfl, rfl⟩
  · exact ⟨Or.inl rfl, rfl, rfl⟩
  · exact (hnot hphase hcancelled (by decide)).elim

theorem Over.run (h : s.Over) {later : List Action} (hrun : s.run later = some s') :
    s'.instances = s.instances ∧ s'.restarted = s.restarted := by
  refine (foldlM_inv (P := fun t : Supervisor ↦ t.Over ∧ t.instances = s.instances ∧
    t.restarted = s.restarted) (fun _ _ t t' ht hstep ↦ ?_) ⟨h, rfl, rfl⟩ hrun).2
  obtain ⟨hover, hinstances, hrestarted⟩ := ht.1.step hstep
  exact ⟨hover, hinstances.trans ht.2.1, hrestarted.trans ht.2.2⟩

end Supervisor

end Koalisi.Core
