import Koalisi.Subsystems.Outcomes

/-!
# How a service stops

A service whose channel is closed or whose flag is set works on nothing any more
(`Over`), and that is so whenever a client has been told that the service is gone, that its
command was refused or dropped, or that it panicked (`Sound.over_of_outcome`).

A service whose token is cancelled stops after a bounded number of its own steps
(`Sound.stopSteps_move`), and until it has stopped it can take one (`poll_isSome`).
-/

namespace Koalisi.Subsystems

open Koalisi.Lib Koalisi.Lib.Fallible Koalisi.Topology

variable {W Cmd Rep E O : Type}

/-- How many steps a cancelled task has left at most, with this many commands in its channel. -/
def Task.stopSteps (queued : Nat) : Task Cmd Rep E → Nat
  | .recv => commandCapacity + 6
  | .handling _ _ => commandCapacity + 5
  | .caught _ _ => commandCapacity + 4
  | .flagged _ _ => commandCapacity + 3
  | .replying _ _ => commandCapacity + 3
  | .select => commandCapacity + 2
  | .returning => commandCapacity + 2
  | .refusing => queued + 1
  | .dropping => queued + 1
  | .stopped => 0

namespace Service

/-- The service takes no more commands, or is about to take no more. -/
def Over (s : Service W Cmd Rep E) : Prop := s.rx.closed = true ∨ s.panicked = true

/-- How many steps the task has left at most, once its token is cancelled. -/
def stopSteps (s : Service W Cmd Rep E) : Nat := s.task.stopSteps s.rx.queue.length

section Stops

variable {work : O → Cmd → W → Except String (Except (TemporalError E) Rep) × W}
variable {s s' : Service W Cmd Rep E} {a : Action W Cmd O} {reply : RequestId}

/-! ## Nothing more is worked on -/

/-- Where the task stands if the service is over. -/
theorem Sound.task_of_over (hs : s.Sound) (ho : s.Over) {cmd : Cmd} :
    s.task ≠ .handling reply cmd := by
  intro ht
  have hst := hs.stands
  rw [ht] at hst
  rcases ho with hc | hp
  · rw [hst.1] at hc
    cases hc
  · rw [hst.2.1] at hp
    cases hp

theorem Sound.over_move (hs : s.Sound) (h : Moves work s a s') (ho : s.Over) :
    s'.Over ∧ s'.handled = s.handled := by
  constructor
  · exact ho.imp h.closed h.panicked
  · refine h.handled.resolve_right ?_
    rintro ⟨reply, cmd, ht, -⟩
    exact hs.task_of_over ho ht

/-- A service that is over works on nothing any more. -/
theorem Sound.over_run {actions : List (Action W Cmd O)} (hs : s.Sound)
    (h : s.run work actions = some s') (ho : s.Over) : s'.handled = s.handled := by
  refine (foldlM_inv (P := fun t : Service W Cmd Rep E ↦
    t.Sound ∧ t.Over ∧ t.handled = s.handled) ?_ ⟨hs, ho, rfl⟩ h).2.2
  rintro a - t t' ⟨hts, hto, hth⟩ hstep
  have hmove := moves_of_step hstep
  obtain ⟨hto', hth'⟩ := hts.over_move hmove hto
  exact ⟨hts.move hmove, hto', hth'.trans hth⟩

/-- Who is told that the service is gone is told so by a closed channel. -/
def GoneClosed (s : Service W Cmd Rep E) : Prop :=
  ∀ reply, (reply, .error .gone) ∈ s.outcomes → s.rx.closed = true

theorem goneClosed_answer {t : Service W Cmd Rep E} {outcome : Except (ServiceError E) Rep}
    (hg : s.GoneClosed) (ht : t.outcomes = (s.answer reply outcome).outcomes)
    (hc : s.rx.closed = true → t.rx.closed = true)
    (hn : outcome = .error .gone → s.rx.closed = true) : t.GoneClosed := by
  intro r hr
  rw [ht, answer] at hr
  rcases List.mem_append.mp hr with hr | hr
  · exact hc (hg r hr)
  · exact hc (hn (Prod.mk.inj (List.mem_singleton.mp hr)).2.symm)

theorem GoneClosed.move (hg : s.GoneClosed) (h : Moves work s a s') : s'.GoneClosed := by
  have hclosed := h.closed
  cases h with
  | gone hc => exact goneClosed_answer hg rfl hclosed fun _ ↦ hc
  | @replied o reply output =>
      refine goneClosed_answer hg rfl hclosed fun hout ↦ ?_
      cases output with
      | ok rep => cases hout
      | error e => cases hout
  | report => exact goneClosed_answer hg rfl hclosed fun hout ↦ by cases hout
  | refuse => exact goneClosed_answer hg rfl hclosed fun hout ↦ by cases hout
  | drop => exact goneClosed_answer hg rfl hclosed fun hout ↦ by cases hout
  | _ => exact fun r hr ↦ hclosed (hg r hr)

/-- Who is told so knows that the service is over. -/
theorem Sound.over_of_outcome (hs : s.Sound) (hg : s.GoneClosed) {error : ServiceError E}
    (h : (reply, .error error) ∈ s.outcomes) (ht : ∀ e, error ≠ .topology e) : s.Over := by
  have hf := hs.fits_of_mem h
  cases error with
  | gone => exact Or.inl (hg reply h)
  | replyDropped => exact Or.inr hf.2.2
  | cancelled => exact Or.inl hf.2.2.1
  | panicked message => exact Or.inr hf.2.2.2
  | topology e => exact absurd rfl (ht e)

/-! ## A cancelled service stops -/

/-- A task that has not stopped can take a step. -/
theorem poll_isSome (work : O → Cmd → W → Except String (Except (TemporalError E) Rep) × W)
    (oracle : O) (h : s.task ≠ .stopped) : ∃ s', s.poll work oracle = some s' := by
  unfold poll
  cases ht : s.task with
  | stopped => exact absurd ht h
  | select =>
      dsimp only
      split
      · exact ⟨_, rfl⟩
      · exact ⟨_, rfl⟩
  | recv =>
      dsimp only
      split
      · exact ⟨_, rfl⟩
      · split
        · exact ⟨_, rfl⟩
        · exact ⟨_, rfl⟩
  | refusing =>
      dsimp only
      split
      · exact ⟨_, rfl⟩
      · exact ⟨_, rfl⟩
  | dropping =>
      dsimp only
      split
      · exact ⟨_, rfl⟩
      · exact ⟨_, rfl⟩
  | _ => exact ⟨_, rfl⟩

theorem Task.stopSteps_le (task : Task Cmd Rep E) {queued : Nat} (h : queued ≤ commandCapacity) :
    task.stopSteps queued ≤ commandCapacity + 6 := by
  cases task <;> simp only [Task.stopSteps] <;> omega

theorem Sound.queue_le (hs : s.Sound) : s.rx.queue.length ≤ commandCapacity := by
  rw [← hs.capacity]
  exact s.rx.bounded

theorem Sound.stopSteps_le (hs : s.Sound) : s.stopSteps ≤ commandCapacity + 6 :=
  Task.stopSteps_le s.task hs.queue_le

/-- Each step of a cancelled task is one less to go, and nobody else adds one. -/
theorem Sound.stopSteps_move (hs : s.Sound) (h : Moves work s a s') (hc : s.cancelled = true) :
    s'.stopSteps + a.polls ≤ s.stopSteps := by
  have hle := hs.queue_le
  unfold stopSteps
  cases h with
  | @accepted cmd rx hopen =>
      -- an open channel belongs to a task that does not count what is in it
      have hst := hs.stands
      rw [hopen] at hst
      cases ht : s.task with
      | refusing => exact nomatch (ht ▸ hst).1
      | dropping => exact nomatch (ht ▸ hst).1
      | stopped => exact nomatch (ht ▸ hst).1
      | _ => exact Nat.le_refl _
  | handles ha => rcases ha with rfl | rfl <;> exact Nat.le_refl _
  | passToken ht hn =>
      rw [hc] at hn
      cases hn
  | seeCancel ht =>
      simp only [ht, Task.stopSteps, Action.polls, Channel.close]
      omega
  | take ht | abandoned ht | wait ht | worked ht | panics ht | replied ht | flag ht | report ht =>
      simp only [ht, Task.stopSteps, Action.polls]
      omega
  | closes ht =>
      simp only [ht, Task.stopSteps, Action.polls, Channel.close]
      omega
  | refuse ht hq | drop ht hq =>
      simp only [answer, ht, hq, Task.stopSteps, Action.polls, List.length_cons]
      omega
  | stop ht =>
      rcases ht with ht | ht <;> simp only [ht, Task.stopSteps, Action.polls] <;> omega
  | _ => exact Nat.le_refl _

end Stops

end Service

end Koalisi.Subsystems
