import Koalisi.Lib.Channel

/-!
# Tasks that read a channel until they are cancelled

A task takes items off a channel one at a time and handles each before it takes the
next.  It waits for an item, for the close of the channel, or for a cancel, the
cancel first if several are there.  Once it has seen the cancel it drains the channel:
it goes on taking items until it finds none, and then stops.

Handling an item takes time, and senders may go on sending meanwhile.  So the task
drains what was buffered when it saw the cancel and also whatever arrives until it
finds the channel empty, no more and no less (`Counted`).  The counters that say so
are kept by the task, which does not read them.
-/

universe u

namespace Koalisi.Lib

/-- Where a task stands. -/
inductive Phase (α : Type u) where
  /-- It waits for an item, the close of the channel, or the cancel. -/
  | select
  /-- It handles an item, taken before or after it saw the cancel. -/
  | handling (item : α) (draining : Bool)
  /-- It has seen the cancel, and looks for the next item. -/
  | draining
  | stopped
deriving DecidableEq, Repr

/-- The task has ended. -/
def Phase.isStopped {α : Type u} : Phase α → Bool
  | .stopped => true
  | _ => false

/-- A task that reads a channel. -/
structure Consumer (α : Type u) where
  phase : Phase α
  /-- Items buffered in the channel when the cancel was seen. -/
  buffered : Option Nat
  /-- Items taken since then. -/
  drained : Nat
  /-- Items that have arrived since then, up to the stop. -/
  late : Nat
deriving DecidableEq, Repr

namespace Consumer

variable {α : Type u}

/-- A task that has just been started. -/
def new : Consumer α where
  phase := .select
  buffered := none
  drained := 0
  late := 0

/-- The item that is being handled. -/
def inHand (task : Consumer α) : List α :=
  match task.phase with
  | .handling item _ => [item]
  | _ => []

/-- The task has seen the cancel and has not stopped. -/
def isDraining (task : Consumer α) : Bool :=
  match task.phase with
  | .handling _ draining => draining
  | .draining => true
  | _ => false

/-- The next step of a task that handles no item, if there is one. -/
def poll (cancelled sendersGone : Bool) (task : Consumer α) (rx : Channel α) :
    Option (Consumer α × Channel α) :=
  match task.phase with
  | .select =>
      if cancelled then
        some ({ task with phase := .draining, buffered := some rx.queue.length }, rx)
      else match rx.tryRecv with
        | some (item, rx) => some ({ task with phase := .handling item false }, rx)
        | none => if sendersGone then some ({ task with phase := .stopped }, rx) else none
  | .draining =>
      match rx.tryRecv with
      | some (item, rx) =>
          some ({ task with phase := .handling item true, drained := task.drained + 1 }, rx)
      | none => some ({ task with phase := .stopped }, rx)
  | _ => none

/-- The item in hand is done with. -/
def finish (task : Consumer α) : Consumer α :=
  match task.phase with
  | .handling _ draining => { task with phase := if draining then .draining else .select }
  | _ => task

/-- Items arrive in the channel. -/
def arrive (task : Consumer α) (items : Nat) : Consumer α :=
  if task.isDraining then { task with late := task.late + items } else task

variable {task task' : Consumer α} {rx rx' : Channel α} {cancelled sendersGone : Bool}

@[simp] theorem inHand_arrive (items : Nat) : (task.arrive items).inHand = task.inHand := by
  unfold arrive
  split <;> rfl

@[simp] theorem phase_arrive (items : Nat) : (task.arrive items).phase = task.phase := by
  unfold arrive
  split <;> rfl

@[simp] theorem arrive_zero : task.arrive 0 = task := by
  unfold arrive
  split <;> rfl

theorem inHand_finish : task.finish.inHand = [] := by
  obtain ⟨phase, _, _, _⟩ := task
  cases phase with
  | handling item draining => cases draining <;> rfl
  | _ => rfl

/-- What one step can do. -/
theorem poll_cases (h : task.poll cancelled sendersGone rx = some (task', rx')) :
    (task.phase = .select ∧ cancelled = true ∧ rx' = rx ∧
      task' = { task with phase := .draining, buffered := some rx.queue.length }) ∨
    (∃ item, task.phase = .select ∧ cancelled = false ∧ rx.queue = item :: rx'.queue ∧
      task' = { task with phase := .handling item false }) ∨
    (task.phase = .select ∧ cancelled = false ∧ sendersGone = true ∧ rx' = rx ∧ rx.queue = [] ∧
      task' = { task with phase := .stopped }) ∨
    (∃ item, task.phase = .draining ∧ rx.queue = item :: rx'.queue ∧
      task' = { task with phase := .handling item true, drained := task.drained + 1 }) ∨
    (task.phase = .draining ∧ rx' = rx ∧ rx.queue = [] ∧
      task' = { task with phase := .stopped }) := by
  unfold poll at h
  split at h
  · rename_i hp
    split at h
    · rename_i hc
      cases h
      exact Or.inl ⟨hp, hc, rfl, rfl⟩
    · rename_i hc
      rw [Bool.not_eq_true] at hc
      split at h
      · rename_i item rx₁ hr
        cases h
        exact Or.inr (Or.inl ⟨item, hp, hc, Channel.tryRecv_some hr, rfl⟩)
      · rename_i hr
        split at h
        · rename_i hg
          cases h
          exact Or.inr (Or.inr (Or.inl ⟨hp, hc, hg, rfl, Channel.tryRecv_none hr, rfl⟩))
        · cases h
  · rename_i hp
    split at h
    · rename_i item rx₁ hr
      cases h
      exact Or.inr (Or.inr (Or.inr (Or.inl ⟨item, hp, Channel.tryRecv_some hr, rfl⟩)))
    · rename_i hr
      cases h
      exact Or.inr (Or.inr (Or.inr (Or.inr ⟨hp, rfl, Channel.tryRecv_none hr, rfl⟩)))
  · cases h

/-- A step loses no item and makes none up. -/
theorem poll_conserves (h : task.poll cancelled sendersGone rx = some (task', rx')) :
    task'.inHand ++ rx'.queue = task.inHand ++ rx.queue := by
  obtain ⟨phase, buffered, drained, late⟩ := task
  rcases poll_cases h with ⟨hp, -, rfl, rfl⟩ | ⟨item, hp, -, hq, rfl⟩ |
    ⟨hp, -, -, rfl, -, rfl⟩ | ⟨item, hp, hq, rfl⟩ | ⟨hp, rfl, -, rfl⟩ <;> cases hp
  · rfl
  · exact hq.symm
  · rfl
  · exact hq.symm
  · rfl

/-! ## How much is drained -/

/-- What a task has drained, and what it has yet to drain, is what was buffered when it
saw the cancel and what has arrived since. -/
def Counted (task : Consumer α) (rx : Channel α) : Prop :=
  match task.phase with
  | .select => task.buffered = none ∧ task.drained = 0 ∧ task.late = 0
  | .handling _ false => task.buffered = none ∧ task.drained = 0 ∧ task.late = 0
  | .handling _ true => ∃ buffered, task.buffered = some buffered ∧
      task.drained + rx.queue.length = buffered + task.late
  | .draining => ∃ buffered, task.buffered = some buffered ∧
      task.drained + rx.queue.length = buffered + task.late
  | .stopped => ∀ buffered, task.buffered = some buffered →
      task.drained = buffered + task.late

theorem counted_new (rx : Channel α) : Counted new rx := ⟨rfl, rfl, rfl⟩

theorem Counted.poll (hc : Counted task rx)
    (h : task.poll cancelled sendersGone rx = some (task', rx')) : Counted task' rx' := by
  obtain ⟨phase, buffered, drained, late⟩ := task
  rcases poll_cases h with ⟨hp, -, rfl, rfl⟩ | ⟨item, hp, -, hq, rfl⟩ |
    ⟨hp, -, -, rfl, hq, rfl⟩ | ⟨item, hp, hq, rfl⟩ | ⟨hp, rfl, hq, rfl⟩ <;> cases hp
  · -- the cancel is seen: what is buffered now counts
    obtain ⟨rfl, rfl, rfl⟩ : buffered = none ∧ drained = 0 ∧ late = 0 := hc
    exact ⟨_, rfl, Nat.add_comm _ _⟩
  · exact hc
  · obtain ⟨rfl, rfl, rfl⟩ : buffered = none ∧ drained = 0 ∧ late = 0 := hc
    exact fun _ hb ↦ nomatch hb
  · obtain ⟨n, hb, hn⟩ := hc
    refine ⟨n, hb, ?_⟩
    change drained + rx.queue.length = n + late at hn
    rw [hq, List.length_cons] at hn
    change drained + 1 + rx'.queue.length = n + late
    omega
  · obtain ⟨n, hb, hn⟩ := hc
    intro m hm
    cases hb.symm.trans hm
    rw [hq] at hn
    exact hn

theorem Counted.finish (hc : Counted task rx) : Counted task.finish rx := by
  obtain ⟨phase, buffered, drained, late⟩ := task
  cases phase with
  | handling item draining =>
      cases draining with
      | false => exact hc
      | true => exact hc
  | _ => exact hc

/-- Items arrive at the end of the queue. -/
theorem Counted.arrive (hc : Counted task rx) {items : List α}
    (hq : rx'.queue = rx.queue ++ items) : Counted (task.arrive items.length) rx' := by
  obtain ⟨phase, buffered, drained, late⟩ := task
  have hlen : rx'.queue.length = rx.queue.length + items.length := by
    rw [hq, List.length_append]
  have hdrain : (∃ n, buffered = some n ∧ drained + rx.queue.length = n + late) →
      ∃ n, buffered = some n ∧ drained + rx'.queue.length = n + (late + items.length) := by
    rintro ⟨n, hb, hn⟩
    exact ⟨n, hb, by omega⟩
  cases phase with
  | handling item draining =>
      cases draining with
      | false => exact hc
      | true => exact hdrain hc
  | draining => exact hdrain hc
  | select => exact hc
  | stopped => exact hc

/-! ## Steps -/

/-- What can happen between a task and its channel: nothing, a step of the task, the end of
its handling of an item, or the arrival of items. -/
inductive Step : Consumer α × Channel α → Consumer α × Channel α → Prop where
  | idle {task : Consumer α} {rx rx' : Channel α} (hq : rx'.queue = rx.queue) :
      Step (task, rx) (task, rx')
  | poll {task task' : Consumer α} {rx rx' : Channel α} {cancelled sendersGone : Bool}
      (h : task.poll cancelled sendersGone rx = some (task', rx')) : Step (task, rx) (task', rx')
  | finish {task : Consumer α} {rx : Channel α} : Step (task, rx) (task.finish, rx)
  | arrive {task : Consumer α} {rx rx' : Channel α} {items : List α}
      (hq : rx'.queue = rx.queue ++ items) :
      Step (task, rx) (task.arrive items.length, rx')

variable {view view' : Consumer α × Channel α}

theorem Counted.step (hc : Counted view.1 view.2) (h : Step view view') :
    Counted view'.1 view'.2 := by
  cases h with
  | @idle task rx rx' hq =>
      have hnil : rx'.queue = rx.queue ++ [] := by rw [hq, List.append_nil]
      have harrive := hc.arrive hnil
      rwa [List.length_nil, arrive_zero] at harrive
  | poll h => exact hc.poll h
  | finish => exact hc.finish
  | arrive hq => exact hc.arrive hq

theorem late_finish : task.finish.late = task.late := by
  unfold finish
  split <;> rfl

/-- Nothing arrives late in a step exactly if the channel of a draining task does not grow. -/
theorem Step.late (h : Step view view') :
    view.1.late ≤ view'.1.late ∧ (view'.1.late = view.1.late ↔
      (view.1.isDraining = true → view'.2.queue.length ≤ view.2.queue.length)) := by
  cases h with
  | @idle task rx rx' hq =>
      rw [hq]
      exact ⟨Nat.le_refl _, fun _ _ ↦ Nat.le_refl _, fun _ ↦ rfl⟩
  | @poll task task' rx rx' cancelled sendersGone h =>
      have hlate : task'.late = task.late := by
        rcases poll_cases h with ⟨-, -, -, rfl⟩ | ⟨_, -, -, -, rfl⟩ | ⟨-, -, -, -, -, rfl⟩ |
          ⟨_, -, -, rfl⟩ | ⟨-, -, -, rfl⟩ <;> rfl
      have hlen : rx'.queue.length ≤ rx.queue.length := by
        rcases poll_cases h with ⟨-, -, rfl, -⟩ | ⟨_, -, -, hq, -⟩ | ⟨-, -, -, rfl, -, -⟩ |
          ⟨_, -, hq, -⟩ | ⟨-, rfl, -, -⟩
        · exact Nat.le_refl _
        · rw [hq]
          exact Nat.le_succ _
        · exact Nat.le_refl _
        · rw [hq]
          exact Nat.le_succ _
        · exact Nat.le_refl _
      exact ⟨Nat.le_of_eq hlate.symm, fun _ _ ↦ hlen, fun _ ↦ hlate⟩
  | @finish task rx =>
      exact ⟨Nat.le_of_eq late_finish.symm, fun _ _ ↦ Nat.le_refl _, fun _ ↦ late_finish⟩
  | @arrive task rx rx' items hq =>
      have hlen : rx'.queue.length = rx.queue.length + items.length := by
        rw [hq, List.length_append]
      change task.late ≤ (task.arrive items.length).late ∧
        ((task.arrive items.length).late = task.late ↔
          (task.isDraining = true → rx'.queue.length ≤ rx.queue.length))
      unfold Consumer.arrive
      split
      · rename_i hd
        change task.late ≤ task.late + items.length ∧
          (task.late + items.length = task.late ↔ _)
        refine ⟨Nat.le_add_right _ _, fun h _ ↦ by omega, fun h ↦ ?_⟩
        have := h hd
        omega
      · rename_i hd
        exact ⟨Nat.le_refl _, fun _ h ↦ absurd h hd, fun _ ↦ rfl⟩

/-- The task drains what was buffered when it saw the cancel, no more, and then stops. -/
structure DrainsBuffered (task : Consumer α) (rx : Channel α) (buffered : Nat) : Prop where
  bound : task.drained ≤ buffered
  left : task.isDraining = true → task.drained + rx.queue.length = buffered
  last : task.phase = .draining → task.drained = buffered → ∀ cancelled sendersGone,
    task.poll cancelled sendersGone rx = some ({ task with phase := .stopped }, rx)
  all : task.phase = .stopped → task.drained = buffered

/-- A task to which nothing arrives late drains what was buffered. -/
theorem Counted.drainsBuffered (hc : Counted task rx) (hl : task.late = 0) {buffered : Nat}
    (hb : task.buffered = some buffered) : DrainsBuffered task rx buffered := by
  have hdrain : (∃ n, task.buffered = some n ∧ task.drained + rx.queue.length = n + task.late) →
      task.drained + rx.queue.length = buffered := by
    rintro ⟨n, hn, h⟩
    cases hb.symm.trans hn
    rw [h, hl, Nat.add_zero]
  have hnone : task.buffered ≠ none := by
    rw [hb]
    exact Option.some_ne_none _
  cases hp : task.phase with
  | select =>
      simp only [Counted, hp] at hc
      exact absurd hc.1 hnone
  | handling item draining =>
      cases draining with
      | false =>
          simp only [Counted, hp] at hc
          exact absurd hc.1 hnone
      | true =>
          simp only [Counted, hp] at hc
          have heq := hdrain hc
          exact ⟨Nat.le_of_add_right_le (Nat.le_of_eq heq), fun _ ↦ heq, (nomatch hp.symm.trans ·),
            (nomatch hp.symm.trans ·)⟩
  | draining =>
      simp only [Counted, hp] at hc
      have heq := hdrain hc
      refine ⟨Nat.le_of_add_right_le (Nat.le_of_eq heq), fun _ ↦ heq,
        fun _ hall cancelled sendersGone ↦ ?_, (nomatch hp.symm.trans ·)⟩
      have hq : rx.queue = [] := by
        rw [hall] at heq
        exact List.length_eq_zero_iff.mp (Nat.add_eq_left.mp heq)
      simp only [Consumer.poll, hp, Channel.tryRecv_of_nil hq]
  | stopped =>
      simp only [Counted, hp] at hc
      have heq := hc buffered hb
      rw [hl, Nat.add_zero] at heq
      exact ⟨Nat.le_of_eq heq, fun h ↦ by simp [isDraining, hp] at h, (nomatch hp.symm.trans ·),
        fun _ ↦ heq⟩

/-- A task that has stopped after a cancel drained more than was buffered if anything arrived
late. -/
theorem Counted.late_of_bound (hc : Counted task rx) (hs : task.phase = .stopped) {buffered : Nat}
    (hb : task.buffered = some buffered) (h : task.drained ≤ buffered) : task.late = 0 := by
  simp only [Counted, hs] at hc
  have := hc buffered hb
  omega

end Consumer

end Koalisi.Lib
