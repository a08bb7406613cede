import Koalisi.Lib.Channel
import Koalisi.Lib.Fallible
import Koalisi.Lib.Histories

/-!
# A task that answers commands one at a time

A task owns an object and takes commands off a channel.  It handles one, sends the answer, and only
then looks for the next.  It looks for a cancel first; once it finds one it stops, and what is still
in the channel is dropped with it.  It also stops when nobody can send any more.

A command carries the sending half of a channel for its answer, which is named by a number here, the
number of commands sent before.  Many clients send at once and each waits for its own answer.  So
the object answers as if the commands had been given to it one after the other, in the order they
were sent in (`Serves`): the answers are a history of the object, and a client that has its answer
knows that everything sent before has been handled.
-/

namespace Koalisi.Lib

open Fallible

variable {σ Cmd Rep : Type}

/-- Where the task stands. -/
inductive MailStage (Rep : Type) where
  /-- It asks the token, before it asks the channel. -/
  | selecting
  /-- The token was not cancelled: it asks the channel. -/
  | receiving
  /-- A command is handled, and its answer not yet sent. -/
  | replying (request : Nat) (answer : Rep)
  | stopped
deriving DecidableEq, Repr

/-- A task with its channel and its clients. -/
structure Mailbox (σ Cmd Rep : Type) where
  rx : Channel (Nat × Cmd)
  /-- Handles not yet dropped. -/
  handles : Nat
  cancelled : Bool
  stage : MailStage Rep
  state : σ
  /-- Commands that were sent. -/
  sent : List (Nat × Cmd)
  /-- Commands that were handled, with what came of them. -/
  handled : List (Nat × Call Cmd Rep)
  /-- Commands that were dropped with the receiver. -/
  dropped : List (Nat × Cmd)
  /-- What the clients hear; nothing if the command was dropped. -/
  answers : List (Nat × Option Rep)
  /-- Commands that could not be sent. -/
  refused : List Cmd

namespace Mailbox

/-- What can happen. -/
inductive Action (Cmd : Type) where
  /-- A client sends a command, or learns that it cannot. -/
  | request (cmd : Cmd)
  | cloneHandle
  | dropHandle
  | cancel
  /-- The task takes a step. -/
  | poll
deriving DecidableEq, Repr

/-- A task that has just been spawned. -/
def spawn (capacity : Nat) (state : σ) : Mailbox σ Cmd Rep where
  rx := .new capacity
  handles := 1
  cancelled := false
  stage := .selecting
  state := state
  sent := []
  handled := []
  dropped := []
  answers := []
  refused := []

/-- What a client had sent, and what it is told. -/
def asked (h : Nat × Call Cmd Rep) : Nat × Cmd := (h.1, h.2.op)

def told (h : Nat × Call Cmd Rep) : Nat × Option Rep := (h.1, some h.2.res)

/-- A client whose command is dropped is told nothing. -/
def lost (d : Nat × Cmd) : Nat × Option Rep := (d.1, none)

/-- The receiver is dropped, and what is queued with it. -/
def stop (m : Mailbox σ Cmd Rep) : Mailbox σ Cmd Rep :=
  { m with
    rx := { m.rx with queue := [], closed := true, bounded := Nat.zero_le _ }
    stage := .stopped
    dropped := m.dropped ++ m.rx.queue
    answers := m.answers ++ m.rx.queue.map lost }

variable (apply : σ → Cmd → Rep × σ)

/-- A step of the task. -/
def poll (m : Mailbox σ Cmd Rep) : Option (Mailbox σ Cmd Rep) :=
  match m.stage with
  | .selecting => some (if m.cancelled then m.stop else { m with stage := .receiving })
  | .receiving =>
      match m.rx.tryRecv with
      | some ((request, cmd), rx) =>
          some { m with
            rx := rx
            stage := .replying request (apply m.state cmd).1
            state := (apply m.state cmd).2
            handled := m.handled ++ [(request, ⟨cmd, (apply m.state cmd).1⟩)] }
      -- nothing yet: it waits, and asks the token again when it is woken
      | none => some (if m.handles = 0 then m.stop else { m with stage := .selecting })
  | .replying request answer =>
      some { m with stage := .selecting, answers := m.answers ++ [(request, some answer)] }
  | .stopped => none

/-- One action, if it is possible; a send to a full channel waits. -/
def step (m : Mailbox σ Cmd Rep) : Action Cmd → Option (Mailbox σ Cmd Rep)
  | .request cmd =>
      if m.handles = 0 then none
      else match m.rx.trySend (m.sent.length, cmd) with
        | .ok rx => some { m with rx := rx, sent := m.sent ++ [(m.sent.length, cmd)] }
        | .error .closed => some { m with refused := m.refused ++ [cmd] }
        | .error .full => none
  | .cloneHandle => if m.handles = 0 then none else some { m with handles := m.handles + 1 }
  | .dropHandle => if m.handles = 0 then none else some { m with handles := m.handles - 1 }
  | .cancel => some { m with cancelled := true }
  | .poll => m.poll apply

/-- Actions one after the other. -/
def run (actions : List (Action Cmd)) (m : Mailbox σ Cmd Rep) : Option (Mailbox σ Cmd Rep) :=
  actions.foldlM (step apply) m

/-! ## In the order they were sent in -/

/-- The answer that is not yet sent. -/
def pending (m : Mailbox σ Cmd Rep) : List (Nat × Option Rep) :=
  match m.stage with
  | .replying request answer => [(request, some answer)]
  | _ => []

/-- What a task that owned an object at first never loses. -/
structure Keeps (state : σ) (m : Mailbox σ Cmd Rep) : Prop where
  legal : Legal apply state (m.handled.map Prod.snd) m.state
  /-- A request is named by how many there were before. -/
  numbered : ∀ (n : Nat) (r : Nat × Cmd), m.sent[n]? = some r → r.1 = n
  fifo : m.sent = m.handled.map asked ++ m.dropped ++ m.rx.queue
  answered : m.handled.map told ++ m.dropped.map lost = m.answers ++ m.pending
  /-- Only a task that has stopped drops anything. -/
  running : m.stage ≠ .stopped → m.dropped = []
  /-- It stops when it is cancelled, or left alone; then the channel is closed and empty. -/
  ended : m.stage = .stopped →
    m.rx.queue = [] ∧ m.rx.closed = true ∧ (m.cancelled = true ∨ m.handles = 0)

variable {apply} {state : σ} {m m' : Mailbox σ Cmd Rep}

/-- What one action makes of a task. -/
inductive Moves (apply : σ → Cmd → Rep × σ) (m : Mailbox σ Cmd Rep) :
    Action Cmd → Mailbox σ Cmd Rep → Prop where
  | sent {cmd : Cmd} {rx : Channel (Nat × Cmd)} (hhandles : m.handles ≠ 0)
      (hsend : m.rx.trySend (m.sent.length, cmd) = .ok rx) :
      Moves apply m (.request cmd)
        { m with rx := rx, sent := m.sent ++ [(m.sent.length, cmd)] }
  | refused {cmd : Cmd} (hhandles : m.handles ≠ 0) (hclosed : m.rx.closed = true) :
      Moves apply m (.request cmd) { m with refused := m.refused ++ [cmd] }
  | cloned (hhandles : m.handles ≠ 0) :
      Moves apply m .cloneHandle { m with handles := m.handles + 1 }
  | left (hhandles : m.handles ≠ 0) :
      Moves apply m .dropHandle { m with handles := m.handles - 1 }
  | cancelled : Moves apply m .cancel { m with cancelled := true }
  | polled {m' : Mailbox σ Cmd Rep} (hpoll : m.poll apply = some m') : Moves apply m .poll m'

theorem moves_of_step {action : Action Cmd} (h : m.step apply action = some m') :
    m.Moves apply action m' := by
  cases action with
  | request cmd =>
      simp only [Mailbox.step] at h
      split at h
      · cases h
      · next hhandles =>
          split at h
          · next rx hsend =>
              cases h
              exact .sent hhandles hsend
          · next hsend =>
              cases h
              exact .refused hhandles (Channel.trySend_closed hsend)
          · cases h
  | cloneHandle =>
      simp only [Mailbox.step] at h
      split at h
      · cases h
      · next hhandles =>
          cases h
          exact .cloned hhandles
  | dropHandle =>
      simp only [Mailbox.step] at h
      split at h
      · cases h
      · next hhandles =>
          cases h
          exact .left hhandles
  | cancel =>
      cases h
      exact .cancelled
  | poll => exact .polled h

theorem keeps_spawn (capacity : Nat) (state : σ) :
    (spawn capacity state : Mailbox σ Cmd Rep).Keeps apply state where
  legal := .nil state
  numbered n r h := by cases h
  fifo := rfl
  answered := rfl
  running _ := rfl
  ended h := by cases h

/-- Between two commands the task can stop. -/
theorem Keeps.stop (h : m.Keeps apply state) (hstage : m.stage ≠ .stopped)
    (hpending : m.pending = []) (hend : m.cancelled = true ∨ m.handles = 0) :
    m.stop.Keeps apply state where
  legal := h.legal
  numbered := h.numbered
  fifo := by
    change m.sent = _ ++ (m.dropped ++ m.rx.queue) ++ []
    rw [List.append_nil, ← List.append_assoc]
    exact h.fifo
  answered := by
    change _ ++ (m.dropped ++ m.rx.queue).map lost = m.answers ++ m.rx.queue.map lost ++ []
    have hanswered := h.answered
    rw [hpending, h.running hstage, List.map_nil, List.append_nil, List.append_nil] at hanswered
    rw [h.running hstage, List.nil_append, List.append_nil, ← hanswered]
    rfl
  running hne := absurd rfl hne
  ended _ := ⟨rfl, rfl, hend⟩

theorem Keeps.poll (h : m.Keeps apply state) (hpoll : m.poll apply = some m') :
    m'.Keeps apply state := by
  obtain ⟨rx, handles, cancelled, stage, s, sent, handled, dropped, answers, refused⟩ := m
  cases stage with
  | selecting =>
      cases hpoll
      cases cancelled with
      | true => exact h.stop (fun hstage ↦ by cases hstage) rfl (Or.inl rfl)
      | false =>
          exact ⟨h.legal, h.numbered, h.fifo, h.answered, fun _ ↦ h.running fun hs ↦ (by cases hs),
            fun hs ↦ by cases hs⟩
  | receiving =>
      have hdropped : dropped = [] := h.running fun hs ↦ (by cases hs)
      subst hdropped
      simp only [Mailbox.poll] at hpoll
      split at hpoll
      · next request cmd rx' hrecv =>
          cases hpoll
          refine ⟨?_, h.numbered, ?_, ?_, fun _ ↦ rfl, fun hs ↦ by cases hs⟩
          · have hlegal := h.legal.concat cmd
            change Legal apply state ((handled ++ [_]).map Prod.snd) _
            rw [List.map_append]
            exact hlegal
          · have hfifo : sent = handled.map asked ++ [] ++ rx.queue := h.fifo
            change sent = (handled ++ [_]).map asked ++ [] ++ rx'.queue
            rw [hfifo, Channel.tryRecv_some hrecv, List.map_append, List.append_nil,
              List.append_nil, List.append_assoc]
            rfl
          · have hanswered : handled.map told ++ [] = answers ++ [] := h.answered
            rw [List.append_nil, List.append_nil] at hanswered
            change (handled ++ [_]).map told ++ [] = answers ++ [_]
            rw [← hanswered, List.map_append, List.append_nil]
            rfl
      · next hrecv =>
          have hnil := Channel.tryRecv_none hrecv
          cases hpoll
          by_cases hhandles : handles = 0
          · rw [if_pos hhandles]
            exact h.stop (fun hs ↦ by cases hs) rfl (Or.inr hhandles)
          · rw [if_neg hhandles]
            exact ⟨h.legal, h.numbered, h.fifo, h.answered, fun _ ↦ rfl, fun hs ↦ by cases hs⟩
  | replying request answer =>
      cases hpoll
      refine ⟨h.legal, h.numbered, h.fifo, ?_, fun _ ↦ h.running fun hs ↦ (by cases hs),
        fun hs ↦ by cases hs⟩
      exact h.answered.trans (List.append_nil _).symm
  | stopped => cases hpoll

theorem Keeps.step (h : m.Keeps apply state) {action : Action Cmd}
    (hstep : m.step apply action = some m') : m'.Keeps apply state := by
  cases moves_of_step hstep with
  | @sent cmd rx _ hsend =>
      refine ⟨h.legal, fun n r hn ↦ ?_, ?_, h.answered, h.running, fun hs ↦ ?_⟩
      · change (m.sent ++ [(m.sent.length, cmd)])[n]? = some r at hn
        rcases Nat.lt_or_ge n m.sent.length with hlt | hge
        · rw [List.getElem?_append_left hlt] at hn
          exact h.numbered n r hn
        · rw [List.getElem?_append_right hge] at hn
          obtain ⟨hlen, rfl⟩ := List.getElem?_eq_some_iff.mp hn
          rw [List.length_singleton] at hlen
          rw [List.getElem_singleton]
          exact Nat.le_antisymm hge (by omega)
      · change m.sent ++ [(m.sent.length, cmd)] = _ ++ _ ++ rx.queue
        rw [Channel.trySend_ok hsend, h.fifo, List.append_assoc]
      · have hclosed := (h.ended hs).2.1
        exact absurd ((Channel.trySend_ok_open hsend).1.symm.trans hclosed) Bool.false_ne_true
  | refused _ _ => exact ⟨h.legal, h.numbered, h.fifo, h.answered, h.running, h.ended⟩
  | cloned hhandles =>
      exact ⟨h.legal, h.numbered, h.fifo, h.answered, h.running, fun hs ↦
        ⟨(h.ended hs).1, (h.ended hs).2.1, Or.inl ((h.ended hs).2.2.resolve_right hhandles)⟩⟩
  | left hhandles =>
      exact ⟨h.legal, h.numbered, h.fifo, h.answered, h.running, fun hs ↦
        ⟨(h.ended hs).1, (h.ended hs).2.1, Or.inl ((h.ended hs).2.2.resolve_right hhandles)⟩⟩
  | cancelled =>
      exact ⟨h.legal, h.numbered, h.fifo, h.answered, h.running, fun hs ↦
        ⟨(h.ended hs).1, (h.ended hs).2.1, Or.inl rfl⟩⟩
  | polled hpoll => exact h.poll hpoll

/-- **The run lemma.** -/
theorem keeps_run {capacity : Nat} {actions : List (Action Cmd)}
    (h : run apply actions (spawn capacity state) = some m) : m.Keeps apply state :=
  foldlM_inv (P := fun m : Mailbox σ Cmd Rep ↦ m.Keeps apply state)
    (fun _ _ _ _ hm hstep ↦ hm.step hstep) (keeps_spawn capacity state) h

/-- A request was answered as if the commands sent before it had been given to the object alone. -/
theorem Keeps.answer (h : m.Keeps apply state) {n : Nat} {rep : Rep}
    (hanswer : (n, some rep) ∈ m.answers) : n < m.handled.length ∧
      ∃ cmd, m.sent[n]? = some (n, cmd) ∧
        rep = (apply (after apply state ((m.sent.take n).map Prod.snd)) cmd).1 := by
  have htold : (n, some rep) ∈ m.handled.map told ++ m.dropped.map lost := by
    rw [h.answered]
    exact List.mem_append_left _ hanswer
  rcases List.mem_append.mp htold with hmem | hmem
  · obtain ⟨⟨n', cmd, rep'⟩, hhandled, heq⟩ := List.mem_map.mp hmem
    obtain ⟨hn, hrep⟩ := Prod.mk.inj heq
    subst hn
    obtain rfl := Option.some.inj hrep
    obtain ⟨i, hi⟩ := List.getElem?_of_mem hhandled
    have hlt : i < (m.handled.map asked).length := by
      rw [List.length_map]
      exact (List.getElem?_eq_some_iff.mp hi).1
    have hsent : m.sent[i]? = some (n', cmd) := by
      rw [h.fifo, List.append_assoc, List.getElem?_append_left hlt, List.getElem?_map, hi]
      rfl
    obtain rfl : n' = i := h.numbered i _ hsent
    refine ⟨(List.getElem?_eq_some_iff.mp hi).1, cmd, hsent, ?_⟩
    have hcall : (m.handled.map Prod.snd)[n']? = some ⟨cmd, rep'⟩ := by
      rw [List.getElem?_map, hi]
      rfl
    have hbefore : (m.sent.take n').map Prod.snd =
        ((m.handled.map Prod.snd).take n').map Call.op := by
      rw [h.fifo, List.append_assoc, List.take_append_of_le_length (Nat.le_of_lt hlt),
        ← List.map_take, ← List.map_take, List.map_map, List.map_map]
      rfl
    rw [hbefore]
    exact h.legal.res_eq hcall
  · obtain ⟨d, -, heq⟩ := List.mem_map.mp hmem
    cases heq

/-! ## What stays -/

/-- Nothing that was sent or handled is taken back, and a task that has stopped does not go on. -/
structure Grows (m m' : Mailbox σ Cmd Rep) : Prop where
  sent : m.sent <+: m'.sent
  handled : m.handled <+: m'.handled
  stopped : m.stage = .stopped → m'.stage = .stopped
  /-- The channel is closed by the task alone, when it stops. -/
  closed : m'.rx.closed = true → m.rx.closed = true ∨ m'.stage = .stopped

theorem Grows.refl (m : Mailbox σ Cmd Rep) : m.Grows m :=
  ⟨List.prefix_refl _, List.prefix_refl _, id, Or.inl⟩

theorem Grows.stop (m : Mailbox σ Cmd Rep) : m.Grows m.stop :=
  ⟨List.prefix_refl _, List.prefix_refl _, fun _ ↦ rfl, fun _ ↦ Or.inr rfl⟩

theorem Grows.poll (h : m.poll apply = some m') : m.Grows m' := by
  obtain ⟨rx, handles, cancelled, stage, s, sent, handled, dropped, answers, refused⟩ := m
  cases stage with
  | selecting =>
      cases h
      cases cancelled with
      | true => exact .stop _
      | false => exact ⟨List.prefix_refl _, List.prefix_refl _, fun hs ↦ (by cases hs), Or.inl⟩
  | receiving =>
      simp only [Mailbox.poll] at h
      split at h
      · next request cmd rx' hrecv =>
          cases h
          refine ⟨List.prefix_refl _, List.prefix_append _ _, fun hs ↦ (by cases hs), fun hc ↦ ?_⟩
          exact Or.inl ((Channel.tryRecv_some_rest hrecv).1.symm.trans hc)
      · cases h
        by_cases hhandles : handles = 0
        · rw [if_pos hhandles]
          exact .stop _
        · rw [if_neg hhandles]
          exact ⟨List.prefix_refl _, List.prefix_refl _, fun hs ↦ (by cases hs), Or.inl⟩
  | replying request answer =>
      cases h
      exact ⟨List.prefix_refl _, List.prefix_refl _, fun hs ↦ (by cases hs), Or.inl⟩
  | stopped => cases h

theorem Grows.step {action : Action Cmd} (h : m.step apply action = some m') : m.Grows m' := by
  cases moves_of_step h with
  | sent _ hsend =>
      have hopen := (Channel.trySend_ok_open hsend).2.1
      exact ⟨List.prefix_append _ _, List.prefix_refl _, id, fun hc ↦
        absurd (hopen.symm.trans hc) Bool.false_ne_true⟩
  | refused _ _ => exact ⟨List.prefix_refl _, List.prefix_refl _, id, Or.inl⟩
  | cloned _ => exact ⟨List.prefix_refl _, List.prefix_refl _, id, Or.inl⟩
  | left _ => exact ⟨List.prefix_refl _, List.prefix_refl _, id, Or.inl⟩
  | cancelled => exact ⟨List.prefix_refl _, List.prefix_refl _, id, Or.inl⟩
  | polled hpoll => exact .poll hpoll

/-- The task itself sends nothing. -/
theorem sent_poll (h : m.poll apply = some m') : m'.sent = m.sent := by
  obtain ⟨rx, handles, cancelled, stage, s, sent, handled, dropped, answers, refused⟩ := m
  cases stage with
  | selecting =>
      cases h
      cases cancelled with
      | true => rfl
      | false => rfl
  | receiving =>
      simp only [Mailbox.poll] at h
      split at h
      · cases h
        rfl
      · cases h
        by_cases hhandles : handles = 0
        · rw [if_pos hhandles]
          rfl
        · rw [if_neg hhandles]
  | replying request answer =>
      cases h
      rfl
  | stopped => cases h

/-- Nothing is sent but what is requested. -/
theorem sent_step {action : Action Cmd} (h : m.step apply action = some m') :
    m'.sent = m.sent ∨
      ∃ cmd, action = .request cmd ∧ m'.sent = m.sent ++ [(m.sent.length, cmd)] := by
  cases moves_of_step h with
  | sent _ _ => exact Or.inr ⟨_, rfl, rfl⟩
  | refused _ _ => exact Or.inl rfl
  | cloned _ => exact Or.inl rfl
  | left _ => exact Or.inl rfl
  | cancelled => exact Or.inl rfl
  | polled hpoll => exact Or.inl (sent_poll hpoll)

/-- A command whose answer is lost was dropped by a task that has stopped. -/
theorem Keeps.stopped_of_lost (h : m.Keeps apply state) {n : Nat} (hlost : (n, none) ∈ m.answers) :
    m.stage = .stopped := by
  by_contra hrunning
  have hmem : (n, none) ∈ m.handled.map told ++ m.dropped.map lost := by
    rw [h.answered]
    exact List.mem_append_left _ hlost
  rw [h.running hrunning, List.map_nil, List.append_nil] at hmem
  obtain ⟨_, -, heq⟩ := List.mem_map.mp hmem
  cases heq

/-- The channel of a task that runs is open. -/
theorem stopped_of_closed {capacity : Nat} {actions : List (Action Cmd)}
    (h : run apply actions (spawn capacity state) = some m) (hclosed : m.rx.closed = true) :
    m.stage = .stopped := by
  refine foldlM_inv (P := fun m : Mailbox σ Cmd Rep ↦ m.rx.closed = true → m.stage = .stopped)
    (fun _ _ m m' hm hstep hclosed ↦ ?_) (fun hopen ↦ by cases hopen) h hclosed
  have hgrows := Grows.step hstep
  rcases hgrows.closed hclosed with hbefore | hstopped
  · exact hgrows.stopped (hm hbefore)
  · exact hstopped

/-! ## The end -/

/-- The task is cancelled, or nobody can send any more. -/
def Ending (m : Mailbox σ Cmd Rep) : Prop := m.cancelled = true ∨ m.handles = 0

/-- An action is a step of the task. -/
def Action.isPoll : Action Cmd → Bool
  | .poll => true
  | _ => false

/-- How many steps the task has left at most, once it is ending. -/
def stepsLeft (m : Mailbox σ Cmd Rep) : Nat :=
  if m.cancelled then
    match m.stage with
    | .selecting => 1
    | .receiving => 3
    | .replying _ _ => 2
    | .stopped => 0
  else
    match m.stage with
    | .selecting => 3 * m.rx.queue.length + 4
    | .receiving => 3 * m.rx.queue.length + 3
    | .replying _ _ => 3 * m.rx.queue.length + 5
    | .stopped => 0

/-- How many commands a cancelled task may still take: one if it has asked the token already. -/
def openings (m : Mailbox σ Cmd Rep) : Nat :=
  match m.stage with
  | .receiving => 1
  | _ => 0

theorem flags_poll (h : m.poll apply = some m') :
    m'.cancelled = m.cancelled ∧ m'.handles = m.handles ∧
      (m.cancelled = true →
        m'.handled.length + m'.openings ≤ m.handled.length + m.openings) := by
  obtain ⟨rx, handles, cancelled, stage, s, sent, handled, dropped, answers, refused⟩ := m
  cases stage with
  | selecting =>
      cases h
      cases cancelled with
      | true => exact ⟨rfl, rfl, fun _ ↦ Nat.le_refl _⟩
      | false => exact ⟨rfl, rfl, fun hc ↦ by cases hc⟩
  | receiving =>
      simp only [Mailbox.poll] at h
      split at h
      · cases h
        exact ⟨rfl, rfl, fun _ ↦ Nat.le_of_eq List.length_append⟩
      · cases h
        by_cases hhandles : handles = 0
        · rw [if_pos hhandles]
          exact ⟨rfl, rfl, fun _ ↦ Nat.le_succ _⟩
        · rw [if_neg hhandles]
          exact ⟨rfl, rfl, fun _ ↦ Nat.le_succ _⟩
  | replying request answer =>
      cases h
      exact ⟨rfl, rfl, fun _ ↦ Nat.le_refl _⟩
  | stopped => cases h

theorem stepsLeft_poll (hending : m.Ending) (h : m.poll apply = some m') :
    m'.stepsLeft + 1 ≤ m.stepsLeft := by
  obtain ⟨rx, handles, cancelled, stage, s, sent, handled, dropped, answers, refused⟩ := m
  cases stage with
  | selecting =>
      cases h
      cases cancelled with
      | true => exact Nat.le_refl _
      | false => exact Nat.le_refl _
  | receiving =>
      simp only [Mailbox.poll] at h
      split at h
      · next request cmd rx' hrecv =>
          have hqueue := congrArg List.length (Channel.tryRecv_some hrecv)
          rw [List.length_cons] at hqueue
          cases h
          cases cancelled with
          | true => exact Nat.le_refl _
          | false =>
              change 3 * rx'.queue.length + 5 + 1 ≤ 3 * rx.queue.length + 3
              omega
      · cases h
        by_cases hhandles : handles = 0
        · rw [if_pos hhandles]
          cases cancelled with
          | true => exact Nat.succ_le_succ (Nat.zero_le _)
          | false => exact Nat.succ_le_succ (Nat.zero_le _)
        · rw [if_neg hhandles]
          obtain rfl : cancelled = true := hending.resolve_right hhandles
          exact Nat.le_succ _
  | replying request answer =>
      cases h
      cases cancelled with
      | true => exact Nat.le_refl _
      | false => exact Nat.le_refl _
  | stopped => cases h

theorem stepsLeft_step (h : m.Ending) {action : Action Cmd}
    (hstep : m.step apply action = some m') :
    m'.Ending ∧ m'.stepsLeft + (if action.isPoll then 1 else 0) ≤ m.stepsLeft := by
  cases moves_of_step hstep with
  | sent hhandles _ =>
      have hc : m.cancelled = true := h.resolve_right hhandles
      refine ⟨Or.inl hc, ?_⟩
      simp only [stepsLeft, hc, if_true]
      exact Nat.le_refl _
  | refused hhandles _ => exact ⟨Or.inl (h.resolve_right hhandles), Nat.le_refl _⟩
  | cloned hhandles => exact ⟨Or.inl (h.resolve_right hhandles), Nat.le_refl _⟩
  | left hhandles => exact ⟨Or.inl (h.resolve_right hhandles), Nat.le_refl _⟩
  | cancelled =>
      obtain ⟨rx, handles, cancelled, stage, s, sent, handled, dropped, answers, refused⟩ := m
      refine ⟨Or.inl rfl, ?_⟩
      cases cancelled with
      | true => exact Nat.le_refl _
      | false =>
          cases stage with
          | selecting => exact Nat.le_add_left 1 (3 * rx.queue.length + 3)
          | receiving => exact Nat.le_add_left 3 (3 * rx.queue.length)
          | replying request answer => exact Nat.le_add_left 2 (3 * rx.queue.length + 3)
          | stopped => exact Nat.le_refl _
  | polled hpoll =>
      obtain ⟨hcancelled, hhandles, -⟩ := flags_poll hpoll
      refine ⟨?_, stepsLeft_poll h hpoll⟩
      rw [Ending, hcancelled, hhandles]
      exact h

/-- An ending task stops: it takes so many steps at most, whatever else happens. -/
theorem stepsLeft_run {actions : List (Action Cmd)} (h : m.Ending)
    (hrun : run apply actions m = some m') :
    m'.stepsLeft + actions.countP Action.isPoll ≤ m.stepsLeft := by
  induction actions generalizing m with
  | nil =>
      cases hrun
      exact Nat.le_refl _
  | cons action actions ih =>
      obtain ⟨next, hnext, hrest⟩ := Option.bind_eq_some_iff.mp hrun
      obtain ⟨hending, hstep⟩ := stepsLeft_step h hnext
      have hih := ih hending hrest
      rw [List.countP_cons]
      omega

theorem stepsLeft_le (m : Mailbox σ Cmd Rep) : m.stepsLeft ≤ 3 * m.rx.queue.length + 5 := by
  unfold stepsLeft
  split
  · split <;> omega
  · split <;> omega

theorem stepsLeft_le_of_cancelled (hc : m.cancelled = true) : m.stepsLeft ≤ 3 := by
  rw [stepsLeft, if_pos hc]
  split <;> omega

/-- A cancelled task handles no further command, but for one if it had asked the token before. -/
theorem handled_run {actions : List (Action Cmd)} (hc : m.cancelled = true)
    (hrun : run apply actions m = some m') :
    m'.handled.length ≤ m.handled.length + m.openings := by
  have hrunInv : m'.cancelled = true ∧
      m'.handled.length + m'.openings ≤ m.handled.length + m.openings := by
    refine foldlM_inv (P := fun n : Mailbox σ Cmd Rep ↦ n.cancelled = true ∧
      n.handled.length + n.openings ≤ m.handled.length + m.openings)
      (fun action _ n n' hn hstep ↦ ?_) ⟨hc, Nat.le_refl _⟩ hrun
    cases moves_of_step hstep with
    | sent _ _ => exact hn
    | refused _ _ => exact hn
    | cloned _ => exact hn
    | left _ => exact hn
    | cancelled => exact ⟨rfl, hn.2⟩
    | polled hpoll =>
        obtain ⟨hcancelled, -, hhandled⟩ := flags_poll hpoll
        exact ⟨hcancelled.trans hn.1, Nat.le_trans (hhandled hn.1) hn.2⟩
  omega

theorem openings_le (m : Mailbox σ Cmd Rep) : m.openings ≤ 1 := by
  unfold openings
  split
  · exact Nat.le_refl _
  · exact Nat.zero_le _

/-- What a task has done for its clients. -/
structure Serves (apply : σ → Cmd → Rep × σ) (state : σ) (m : Mailbox σ Cmd Rep) : Prop where
  /-- The object is what the commands handled so far have made of it; these are the first that were
  sent, in the order they were sent in. -/
  inOrder : m.state = after apply state (m.handled.map fun h ↦ h.2.op) ∧
    m.handled.map asked <+: m.sent
  /-- An answer is that of the object after the commands that were sent before. -/
  alone : ∀ n rep, (n, some rep) ∈ m.answers → n < m.handled.length ∧
    ∃ cmd, m.sent[n]? = some (n, cmd) ∧
      rep = (apply (after apply state ((m.sent.take n).map Prod.snd)) cmd).1
  /-- The clients hear in this order, and each hears once. -/
  once : m.answers.map Prod.fst <+: m.sent.map Prod.fst ∧ m.sent.map Prod.fst =
    List.range m.sent.length
  /-- In the end each client that sent a command has heard, and nothing is left of the channel. -/
  everyone : m.stage = .stopped → m.answers.length = m.sent.length ∧ m.rx.queue = []
  /-- After a cancel at most one more command is handled, and the task stops. -/
  prompt : m.cancelled = true → ∀ later m', run apply later m = some m' →
    m'.handled.length ≤ m.handled.length + 1 ∧ later.countP Action.isPoll ≤ 3
  /-- When nobody can send any more it stops. -/
  ends : m.handles = 0 → ∀ later m', run apply later m = some m' →
    later.countP Action.isPoll ≤ 3 * m.rx.queue.length + 5

theorem Keeps.pending_of_stopped (hstage : m.stage = .stopped) : m.pending = [] := by
  rw [pending, hstage]

/-- Each request is named once. -/
theorem Keeps.fst_sent (h : m.Keeps apply state) :
    m.sent.map Prod.fst = List.range m.sent.length := by
  refine List.ext_getElem? fun n ↦ ?_
  rw [List.getElem?_map]
  rcases Nat.lt_or_ge n m.sent.length with hlt | hge
  · rw [List.getElem?_eq_getElem hlt, List.getElem?_range hlt]
    exact congrArg some (h.numbered n _ (List.getElem?_eq_getElem hlt))
  · rw [List.getElem?_eq_none hge, List.getElem?_eq_none (by rw [List.length_range]; exact hge)]
    rfl

theorem Keeps.fst_answers (h : m.Keeps apply state) :
    m.answers.map Prod.fst ++ m.pending.map Prod.fst ++ m.rx.queue.map Prod.fst =
      m.sent.map Prod.fst := by
  rw [← List.map_append, ← h.answered, h.fifo, List.map_append, List.map_append, List.map_append,
    List.map_map, List.map_map, List.map_map]
  rfl

/-- **What a run does.** -/
theorem serves_run {capacity : Nat} {actions : List (Action Cmd)}
    (h : run apply actions (spawn capacity state) = some m) : m.Serves apply state := by
  have hm := keeps_run h
  constructor
  case inOrder =>
    refine ⟨?_, ?_⟩
    · have hafter := hm.legal.after_eq
      rw [List.map_map] at hafter
      exact hafter.symm
    · rw [hm.fifo, List.append_assoc]
      exact List.prefix_append _ _
  case alone => exact fun n rep hanswer ↦ hm.answer hanswer
  case once =>
    refine ⟨?_, hm.fst_sent⟩
    rw [← hm.fst_answers, List.append_assoc]
    exact List.prefix_append _ _
  case everyone =>
    intro hstage
    obtain ⟨hqueue, -, -⟩ := hm.ended hstage
    refine ⟨?_, hqueue⟩
    have hfst := congrArg List.length hm.fst_answers
    rw [Keeps.pending_of_stopped hstage, hqueue, List.map_nil, List.map_nil, List.append_nil,
      List.append_nil, List.length_map, List.length_map] at hfst
    exact hfst
  case prompt =>
    intro hc later m' hlater
    have hhandled := handled_run hc hlater
    have hsteps := stepsLeft_run (Or.inl hc) hlater
    have hleft := stepsLeft_le_of_cancelled hc
    have hopen := m.openings_le
    exact ⟨by omega, by omega⟩
  case ends =>
    intro hhandles later m' hlater
    have hsteps := stepsLeft_run (Or.inr hhandles) hlater
    have hleft := m.stepsLeft_le
    omega

end Mailbox

end Koalisi.Lib
