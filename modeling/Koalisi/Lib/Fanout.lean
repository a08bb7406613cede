import Mathlib.Algebra.GroupWithZero.Nat
import Mathlib.Data.List.Basic
import Koalisi.Lib.Channel
import Koalisi.Lib.Fallible

/-!
# Handing each item to several sinks

A task takes items off a channel and hands each to all of its sinks, one after the other, before it
takes the next.  It looks for a cancel first, and once it finds one it stops and leaves in the
channel what is there.  Otherwise it stops when nobody can send any more and the channel is empty.

A sink is anything that has a state.  While the task is at work senders send, the token is
cancelled, and each sink is used by others as well.  What a sink comes to is a matter of its own
history: the items it was offered and what others did to it, in that order (`Serving.replayed`).
The other sinks do not occur in it, so one that is slow, closed or broken is nobody else's concern;
and the items in it are those that were taken off the channel, one by one (`Serving.offered`).
-/

namespace Koalisi.Lib

open Fallible

variable {α S O : Type}

/-! ## Sinks -/

/-- What happens to a sink. -/
inductive SinkOp (α O : Type) where
  /-- The task hands it an item. -/
  | offer (item : α)
  /-- Others use it. -/
  | outside (op : O)
deriving DecidableEq, Repr

/-- What a kind of sink does. -/
structure SinkKind (α S O : Type) where
  /-- It gets an item, and says whether that went wrong. -/
  deliver : α → S → S × Bool
  serve : O → S → S

/-- A sink, with what has happened to it. -/
structure Sink (α S O : Type) where
  state : S
  history : List (SinkOp α O)
  /-- Items that went wrong: a warning is logged. -/
  warned : List α

namespace Sink

def start (state : S) : Sink α S O := ⟨state, [], []⟩

def apply (kind : SinkKind α S O) (sink : Sink α S O) (op : SinkOp α O) : Sink α S O :=
  match op with
  | .offer item =>
      { state := (kind.deliver item sink.state).1
        history := sink.history ++ [op]
        warned := sink.warned ++ if (kind.deliver item sink.state).2 then [item] else [] }
  | .outside outer =>
      { sink with state := kind.serve outer sink.state, history := sink.history ++ [op] }

/-- A sink after its history. -/
def replay (kind : SinkKind α S O) (state : S) (history : List (SinkOp α O)) : Sink α S O :=
  history.foldl (apply kind) (start state)

/-- The items it was offered. -/
def offers (sink : Sink α S O) : List α :=
  sink.history.filterMap fun
    | .offer item => some item
    | .outside _ => none

theorem history_apply (kind : SinkKind α S O) (sink : Sink α S O) (op : SinkOp α O) :
    (sink.apply kind op).history = sink.history ++ [op] := by
  cases op <;> rfl

@[simp] theorem offers_start (state : S) : (start state : Sink α S O).offers = [] := rfl

theorem offers_offer (kind : SinkKind α S O) (sink : Sink α S O) (item : α) :
    (sink.apply kind (.offer item)).offers = sink.offers ++ [item] := by
  rw [offers, history_apply, List.filterMap_append]
  rfl

theorem offers_outside (kind : SinkKind α S O) (sink : Sink α S O) (op : O) :
    (sink.apply kind (.outside op)).offers = sink.offers := by
  rw [offers, history_apply, List.filterMap_append]
  exact List.append_nil _

theorem replay_concat (kind : SinkKind α S O) (state : S) (history : List (SinkOp α O))
    (op : SinkOp α O) : replay kind state (history ++ [op]) =
      (replay kind state history).apply kind op := List.foldl_append

/-- A sink that its history leads to is one also after the next thing that happens to it. -/
theorem apply_replayed {kind : SinkKind α S O} {state : S} {sink : Sink α S O}
    (h : sink = replay kind state sink.history) (op : SinkOp α O) :
    sink.apply kind op = replay kind state (sink.apply kind op).history := by
  rw [history_apply, replay_concat, ← h]

end Sink

/-! ## Sinks that are served in turn -/

/-- Some sinks have been offered items in turn; `hand` is the item that is handed on, and the sink
that is next to get it. -/
structure Serving (kind : SinkKind α S O) (states : List S) (sinks : List (Sink α S O))
    (taken : List α) (hand : Option (α × Nat)) : Prop where
  length : sinks.length = states.length
  /-- A sink is what its own history makes of it. -/
  replayed : ∀ (i : Nat) (sink : Sink α S O), sinks[i]? = some sink →
    ∃ state, states[i]? = some state ∧ sink = Sink.replay kind state sink.history
  /-- It was offered the items that were taken, in this order, up to the one that is handed on. -/
  offered : ∀ (i : Nat) (sink : Sink α S O), sinks[i]? = some sink →
    sink.offers = match hand with
      | some (_, next) => if i < next then taken else taken.dropLast
      | none => taken
  inHand : ∀ item next, hand = some (item, next) →
    next ≤ sinks.length ∧ taken.getLast? = some item

namespace Serving

variable {kind : SinkKind α S O} {states : List S} {sinks : List (Sink α S O)} {taken : List α}
variable {hand : Option (α × Nat)}

theorem start (kind : SinkKind α S O) (states : List S) :
    Serving kind states (states.map Sink.start) [] none where
  length := List.length_map _
  replayed i sink h := by
    rw [List.getElem?_map, Option.map_eq_some_iff] at h
    obtain ⟨state, hstate, rfl⟩ := h
    exact ⟨state, hstate, rfl⟩
  offered i sink h := by
    rw [List.getElem?_map, Option.map_eq_some_iff] at h
    obtain ⟨state, -, rfl⟩ := h
    rfl
  inHand _ _ h := by cases h

/-- Something happens to one sink. -/
theorem getElem?_modify_apply {i j : Nat} {op : SinkOp α O} {sink : Sink α S O}
    (h : (sinks.modify j (·.apply kind op))[i]? = some sink) :
    ∃ before, sinks[i]? = some before ∧
      sink = if j = i then before.apply kind op else before := by
  rw [List.getElem?_modify] at h
  obtain ⟨before, hbefore, rfl⟩ := Option.map_eq_some_iff.mp h
  exact ⟨before, hbefore, rfl⟩

theorem replayed_modify (h : Serving kind states sinks taken hand) (j : Nat) (op : SinkOp α O)
    (i : Nat) (sink : Sink α S O) (hsink : (sinks.modify j (·.apply kind op))[i]? = some sink) :
    ∃ state, states[i]? = some state ∧ sink = Sink.replay kind state sink.history := by
  obtain ⟨before, hbefore, rfl⟩ := getElem?_modify_apply hsink
  obtain ⟨state, hstate, hreplay⟩ := h.replayed i before hbefore
  refine ⟨state, hstate, ?_⟩
  split
  · exact Sink.apply_replayed hreplay op
  · exact hreplay

/-- The next item is taken. -/
theorem take (h : Serving kind states sinks taken none) (item : α) :
    Serving kind states sinks (taken ++ [item]) (some (item, 0)) where
  length := h.length
  replayed := h.replayed
  offered i sink hsink := by
    rw [h.offered i sink hsink]
    exact List.dropLast_concat.symm
  inHand _ _ heq := by
    cases heq
    exact ⟨Nat.zero_le _, List.getLast?_concat⟩

/-- The next sink gets it. -/
theorem deliver {item : α} {next : Nat}
    (h : Serving kind states sinks taken (some (item, next))) (hlt : next < sinks.length) :
    Serving kind states (sinks.modify next (·.apply kind (.offer item))) taken
      (some (item, next + 1)) where
  length := (List.length_modify _ _ _).trans h.length
  replayed := h.replayed_modify next (.offer item)
  offered i sink hsink := by
    obtain ⟨before, hbefore, rfl⟩ := getElem?_modify_apply hsink
    have hoffered := h.offered i before hbefore
    simp only at hoffered ⊢
    by_cases hi : next = i
    · subst hi
      rw [if_neg (Nat.lt_irrefl _)] at hoffered
      rw [if_pos rfl, if_pos (Nat.lt_succ_self _), Sink.offers_offer, hoffered]
      exact List.dropLast_append_getLast? item (h.inHand item next rfl).2
    · rw [if_neg hi, hoffered]
      exact if_congr (by omega) rfl rfl
  inHand _ _ heq := by
    cases heq
    rw [List.length_modify]
    exact ⟨hlt, (h.inHand item next rfl).2⟩

/-- All sinks have it. -/
theorem done {item : α} {next : Nat} (h : Serving kind states sinks taken (some (item, next)))
    (hge : sinks.length ≤ next) : Serving kind states sinks taken none where
  length := h.length
  replayed := h.replayed
  offered i sink hsink := by
    have hlt : i < sinks.length := (List.getElem?_eq_some_iff.mp hsink).1
    rw [h.offered i sink hsink]
    exact if_pos (Nat.lt_of_lt_of_le hlt hge)
  inHand _ _ heq := by cases heq

/-- Others use a sink. -/
theorem outside (h : Serving kind states sinks taken hand) (j : Nat) (op : O) :
    Serving kind states (sinks.modify j (·.apply kind (.outside op))) taken hand where
  length := (List.length_modify _ _ _).trans h.length
  replayed := h.replayed_modify j (.outside op)
  offered i sink hsink := by
    obtain ⟨before, hbefore, rfl⟩ := getElem?_modify_apply hsink
    refine Eq.trans ?_ (h.offered i before hbefore)
    split
    · exact Sink.offers_outside kind before op
    · rfl
  inHand item next heq := by
    rw [List.length_modify]
    exact h.inHand item next heq

/-- Every sink has been offered what was taken, up to the item in hand. -/
theorem offers_prefix (h : Serving kind states sinks taken hand) {sink : Sink α S O}
    (hsink : sink ∈ sinks) : sink.offers <+: taken ∧ taken.length ≤ sink.offers.length + 1 := by
  obtain ⟨i, hi⟩ := List.getElem?_of_mem hsink
  have hall : taken <+: taken ∧ taken.length ≤ taken.length + 1 :=
    ⟨List.prefix_refl _, Nat.le_succ _⟩
  rw [h.offered i sink hi]
  split
  · split
    · exact hall
    · refine ⟨List.dropLast_prefix _, ?_⟩
      rw [List.length_dropLast]
      omega
  · exact hall

/-- With empty hands, every sink has been offered what was taken. -/
theorem offers_eq (h : Serving kind states sinks taken none) {sink : Sink α S O}
    (hsink : sink ∈ sinks) : sink.offers = taken := by
  obtain ⟨i, hi⟩ := List.getElem?_of_mem hsink
  exact h.offered i sink hi

end Serving

/-! ## The task -/

/-- Where the task stands. -/
inductive FanStage (α : Type) where
  /-- It asks the token, before it asks the receiver. -/
  | selecting
  /-- The token was not cancelled: it asks the receiver. -/
  | receiving
  /-- It hands an item to the sinks, and is at this one. -/
  | delivering (item : α) (next : Nat)
  | stopped
deriving DecidableEq, Repr

/-- The item that is handed on, and the sink that gets it next. -/
def FanStage.hand : FanStage α → Option (α × Nat)
  | .delivering item next => some (item, next)
  | _ => none

/-- A task with its channel and its sinks, and a record of what was sent and taken. -/
structure FanOut (α S O : Type) where
  rx : Channel α
  stage : FanStage α
  cancelled : Bool
  /-- No sender is left. -/
  sendersGone : Bool
  sinks : List (Sink α S O)
  /-- Items the channel took. -/
  sent : List α
  /-- Items taken off the channel. -/
  taken : List α

namespace FanOut

/-- What can happen. -/
inductive Action (α O : Type) where
  /-- Somebody sends an item; a full or closed channel drops it. -/
  | send (item : α)
  /-- The last sender is dropped. -/
  | close
  | cancel
  /-- Others use a sink. -/
  | outside (sink : Nat) (op : O)
  /-- The task takes a step. -/
  | poll
deriving DecidableEq, Repr

/-- A task that has just been started. -/
def start (capacity : Nat) (states : List S) : FanOut α S O where
  rx := .new capacity
  stage := .selecting
  cancelled := false
  sendersGone := false
  sinks := states.map Sink.start
  sent := []
  taken := []

variable (kind : SinkKind α S O)

/-- The task stops, and its receiver is dropped. -/
def stop (f : FanOut α S O) : FanOut α S O := { f with stage := .stopped, rx := f.rx.close }

/-- A step of the task. -/
def poll (f : FanOut α S O) : Option (FanOut α S O) :=
  match f.stage with
  | .selecting => some (if f.cancelled then f.stop else { f with stage := .receiving })
  | .receiving =>
      match f.rx.tryRecv with
      | some (item, rx) =>
          some { f with rx, stage := .delivering item 0, taken := f.taken ++ [item] }
      -- nothing yet: it waits, and asks the token again when it is woken
      | none => some (if f.sendersGone then f.stop else { f with stage := .selecting })
  | .delivering item next =>
      if next < f.sinks.length then
        some { f with
          sinks := f.sinks.modify next (·.apply kind (.offer item))
          stage := .delivering item (next + 1) }
      else some { f with stage := .selecting }
  | .stopped => none

/-- One action, if it is possible. -/
def step (f : FanOut α S O) : Action α O → Option (FanOut α S O)
  | .send item =>
      if f.sendersGone then none
      else match f.rx.trySend item with
        | .ok rx => some { f with rx, sent := f.sent ++ [item] }
        | .error _ => some f
  | .close => some { f with sendersGone := true }
  | .cancel => some { f with cancelled := true }
  | .outside i op => some { f with sinks := f.sinks.modify i (·.apply kind (.outside op)) }
  | .poll => f.poll kind

/-- Actions one after the other. -/
def run (actions : List (Action α O)) (f : FanOut α S O) : Option (FanOut α S O) :=
  actions.foldlM (step kind) f

/-! ## Every sink by itself -/

/-- What a task that has been started with some sinks never loses. -/
structure Keeps (states : List S) (f : FanOut α S O) : Prop where
  /-- What was sent has been taken or is in the channel. -/
  lossless : f.sent = f.taken ++ f.rx.queue
  serving : Serving kind states f.sinks f.taken f.stage.hand
  stopped : f.stage = .stopped → f.cancelled = true ∨ (f.sendersGone = true ∧ f.rx.queue = [])

variable {kind} {states : List S} {f f' : FanOut α S O}

theorem keeps_start (capacity : Nat) (states : List S) :
    (start capacity states : FanOut α S O).Keeps kind states where
  lossless := rfl
  serving := .start kind states
  stopped h := by cases h

theorem Keeps.poll (h : f.Keeps kind states) (hpoll : f.poll kind = some f') :
    f'.Keeps kind states := by
  obtain ⟨rx, stage, cancelled, sendersGone, sinks, sent, taken⟩ := f
  cases stage with
  | selecting =>
      cases hpoll
      cases cancelled with
      | true => exact ⟨h.lossless, h.serving, fun _ ↦ Or.inl rfl⟩
      | false => exact ⟨h.lossless, h.serving, fun hstage ↦ nomatch hstage⟩
  | receiving =>
      simp only [FanOut.poll] at hpoll
      split at hpoll
      · next item rx' hrecv =>
          cases hpoll
          refine ⟨?_, h.serving.take item, fun hstage ↦ nomatch hstage⟩
          have hlossless : sent = taken ++ rx.queue := h.lossless
          change sent = taken ++ [item] ++ rx'.queue
          rw [hlossless, Channel.tryRecv_some hrecv, List.append_assoc]
          rfl
      · next hrecv =>
          have hnil := Channel.tryRecv_none hrecv
          cases hpoll
          cases sendersGone with
          | true => exact ⟨h.lossless, h.serving, fun _ ↦ Or.inr ⟨rfl, hnil⟩⟩
          | false => exact ⟨h.lossless, h.serving, fun hstage ↦ nomatch hstage⟩
  | delivering item next =>
      simp only [FanOut.poll] at hpoll
      split at hpoll
      · next hlt =>
          cases hpoll
          exact ⟨h.lossless, h.serving.deliver hlt, fun hstage ↦ nomatch hstage⟩
      · next hge =>
          cases hpoll
          exact ⟨h.lossless, h.serving.done (Nat.le_of_not_lt hge), fun hstage ↦ nomatch hstage⟩
  | stopped => cases hpoll

theorem Keeps.step (h : f.Keeps kind states) {action : Action α O}
    (hstep : f.step kind action = some f') : f'.Keeps kind states := by
  cases action with
  | send item =>
      simp only [FanOut.step] at hstep
      split at hstep
      · cases hstep
      · next hgone =>
          split at hstep
          · next rx hsend =>
              cases hstep
              refine ⟨?_, h.serving, fun hstage ↦ ?_⟩
              · change f.sent ++ [item] = f.taken ++ rx.queue
                rw [Channel.trySend_ok hsend, h.lossless, List.append_assoc]
              · exact Or.inl ((h.stopped hstage).resolve_right fun hand ↦ hgone hand.1)
          · cases hstep
            exact h
  | close =>
      cases hstep
      exact ⟨h.lossless, h.serving, fun hstage ↦ (h.stopped hstage).imp_right fun hand ↦
        ⟨rfl, hand.2⟩⟩
  | cancel =>
      cases hstep
      exact ⟨h.lossless, h.serving, fun _ ↦ Or.inl rfl⟩
  | outside j op =>
      cases hstep
      exact ⟨h.lossless, h.serving.outside j op, h.stopped⟩
  | poll => exact h.poll hstep

/-- **The run lemma.** -/
theorem keeps_run {capacity : Nat} {actions : List (Action α O)}
    (h : run kind actions (start capacity states) = some f) : f.Keeps kind states :=
  foldlM_inv (P := fun f ↦ f.Keeps kind states) (fun _ _ _ _ hf hstep ↦ hf.step hstep)
    (keeps_start capacity states) h

/-- Every sink has been offered what was taken, up to the item in hand. -/
theorem Keeps.offers_prefix (h : f.Keeps kind states) {sink : Sink α S O}
    (hsink : sink ∈ f.sinks) : sink.offers <+: f.sent := by
  rw [h.lossless]
  exact (h.serving.offers_prefix hsink).1.trans (List.prefix_append _ _)

/-- A task that was not cancelled stops when every sink has been offered all that was sent. -/
theorem Keeps.offers_of_stopped (h : f.Keeps kind states) (hstopped : f.stage = .stopped)
    (hcancelled : f.cancelled = false) {sink : Sink α S O} (hsink : sink ∈ f.sinks) :
    sink.offers = f.sent := by
  have hserving := h.serving
  rw [hstopped] at hserving
  rcases h.stopped hstopped with hc | ⟨-, hqueue⟩
  · exact absurd hc (by rw [hcancelled]; exact Bool.false_ne_true)
  · rw [hserving.offers_eq hsink, h.lossless, hqueue, List.append_nil]

/-! ## The end -/

/-- The token is cancelled, or nobody can send any more. -/
def Ending (f : FanOut α S O) : Prop := f.cancelled = true ∨ f.sendersGone = true

/-- How many items a cancelled task may still take: one if it has asked the token already. -/
def openings (f : FanOut α S O) : Nat :=
  match f.stage with
  | .receiving => 1
  | _ => 0

/-- How many steps the task has left at most, once it is ending. -/
def stepsLeft (f : FanOut α S O) : Nat :=
  let ahead := if f.cancelled then 0 else (f.rx.queue.length + 1) * (f.sinks.length + 3)
  match f.stage with
  | .selecting => ahead + 1
  | .receiving => if f.cancelled then f.sinks.length + 3 else ahead
  | .delivering _ next => ahead + (f.sinks.length - next) + 2
  | .stopped => 0

/-- An action is a step of the task. -/
def Action.polls : Action α O → Nat
  | .poll => 1
  | _ => 0

/-- A step of the task keeps both flags, and takes an item only if it has asked the token. -/
theorem flags_poll (h : f.poll kind = some f') :
    f'.cancelled = f.cancelled ∧ f'.sendersGone = f.sendersGone ∧
      (f.cancelled = true →
        f'.taken.length + f'.openings ≤ f.taken.length + f.openings) := by
  obtain ⟨rx, stage, cancelled, sendersGone, sinks, sent, taken⟩ := f
  cases stage with
  | selecting =>
      cases h
      cases cancelled with
      | true => exact ⟨rfl, rfl, fun _ ↦ Nat.le_refl _⟩
      | false => exact ⟨rfl, rfl, fun hc ↦ nomatch hc⟩
  | receiving =>
      simp only [FanOut.poll] at h
      split at h
      · cases h
        exact ⟨rfl, rfl, fun _ ↦ Nat.le_of_eq (List.length_append)⟩
      · cases h
        cases sendersGone with
        | true => exact ⟨rfl, rfl, fun _ ↦ Nat.le_succ _⟩
        | false => exact ⟨rfl, rfl, fun _ ↦ Nat.le_succ _⟩
  | delivering item next =>
      simp only [FanOut.poll] at h
      split at h <;> cases h
      · exact ⟨rfl, rfl, fun _ ↦ Nat.le_refl _⟩
      · exact ⟨rfl, rfl, fun _ ↦ Nat.le_refl _⟩
  | stopped => cases h

/-- A step of an ending task brings it closer to its end. -/
theorem stepsLeft_poll (hending : f.Ending) (h : f.poll kind = some f') :
    f'.stepsLeft + 1 ≤ f.stepsLeft := by
  obtain ⟨rx, stage, cancelled, sendersGone, sinks, sent, taken⟩ := f
  cases stage with
  | selecting =>
      cases h
      cases cancelled with
      | true => exact Nat.le_refl _
      | false => exact Nat.le_refl _
  | receiving =>
      simp only [FanOut.poll] at h
      split at h
      · next item rx' hrecv =>
          have hqueue := congrArg List.length (Channel.tryRecv_some hrecv)
          rw [List.length_cons] at hqueue
          cases h
          cases cancelled with
          | true =>
              simp only [stepsLeft, if_true]
              omega
          | false =>
              simp only [stepsLeft, Bool.false_eq_true, if_false, hqueue]
              rw [Nat.add_mul (rx'.queue.length + 1) 1]
              omega
      · cases h
        cases sendersGone with
        | true =>
            have hleft : 1 ≤ (rx.queue.length + 1) * (sinks.length + 3) :=
              Nat.mul_pos (Nat.succ_pos _) (Nat.succ_pos _)
            cases cancelled with
            | true => exact Nat.succ_le_succ (Nat.zero_le _)
            | false => exact hleft
        | false =>
            have hc : cancelled = true := hending.resolve_right Bool.false_ne_true
            subst hc
            simp [stepsLeft]
  | delivering item next =>
      simp only [FanOut.poll] at h
      split at h
      · next hlt =>
          cases h
          simp only [stepsLeft, List.length_modify]
          omega
      · cases h
        simp only [stepsLeft]
        omega
  | stopped => cases h

theorem ending_step (h : f.Ending) {action : Action α O} (hstep : f.step kind action = some f') :
    f'.Ending := by
  cases action with
  | send item =>
      simp only [FanOut.step] at hstep
      split at hstep
      · cases hstep
      · split at hstep <;> cases hstep <;> exact h
  | close =>
      cases hstep
      exact Or.inr rfl
  | cancel =>
      cases hstep
      exact Or.inl rfl
  | outside i op =>
      cases hstep
      exact h
  | poll =>
      obtain ⟨hcancelled, hgone, -⟩ := flags_poll hstep
      rw [Ending, hcancelled, hgone]
      exact h

theorem stepsLeft_step (h : f.Ending) {action : Action α O}
    (hstep : f.step kind action = some f') : f'.stepsLeft + action.polls ≤ f.stepsLeft := by
  cases action with
  | send item =>
      simp only [FanOut.step] at hstep
      split at hstep
      · cases hstep
      · next hgone =>
          have hc : f.cancelled = true := h.resolve_right hgone
          split at hstep <;> cases hstep
          · simp only [stepsLeft, hc, if_true]
            exact Nat.le_refl _
          · exact Nat.le_refl _
  | close =>
      cases hstep
      exact Nat.le_refl _
  | cancel =>
      obtain ⟨rx, stage, cancelled, sendersGone, sinks, sent, taken⟩ := f
      cases hstep
      have hleft : sinks.length + 3 ≤ (rx.queue.length + 1) * (sinks.length + 3) :=
        Nat.le_mul_of_pos_left _ (Nat.succ_pos _)
      cases stage with
      | selecting => exact Nat.add_le_add_right (Nat.zero_le _) 1
      | receiving =>
          cases cancelled with
          | true => exact Nat.le_refl _
          | false => exact hleft
      | delivering item next =>
          simp only [stepsLeft, if_true, Action.polls]
          omega
      | stopped => exact Nat.le_refl _
  | outside i op =>
      cases hstep
      simp only [stepsLeft, List.length_modify]
      exact Nat.le_refl _
  | poll => exact stepsLeft_poll h hstep

/-- How many steps of the task there are in a run. -/
def polls (actions : List (Action α O)) : Nat := (actions.map Action.polls).sum

/-- **The end.**  An ending task stops: it takes so many steps at most, whatever else happens. -/
theorem stepsLeft_run {actions : List (Action α O)} (h : f.Ending)
    (hrun : run kind actions f = some f') : f'.stepsLeft + polls actions ≤ f.stepsLeft := by
  induction actions generalizing f with
  | nil =>
      cases hrun
      exact Nat.le_refl _
  | cons action actions ih =>
      obtain ⟨next, hnext, hrest⟩ := Option.bind_eq_some_iff.mp hrun
      have hstep := stepsLeft_step h hnext
      have hih := ih (ending_step h hnext) hrest
      rw [polls, List.map_cons, List.sum_cons]
      change f'.stepsLeft + (action.polls + polls actions) ≤ _
      omega

/-- A cancelled task takes no further item, but for one if it had asked the token before. -/
theorem taken_run {actions : List (Action α O)} (hc : f.cancelled = true)
    (hrun : run kind actions f = some f') :
    f'.taken.length ≤ f.taken.length + f.openings := by
  have hrunInv : f'.cancelled = true ∧
      f'.taken.length + f'.openings ≤ f.taken.length + f.openings := by
    refine foldlM_inv (P := fun g : FanOut α S O ↦ g.cancelled = true ∧
      g.taken.length + g.openings ≤ f.taken.length + f.openings)
      (fun action _ g g' hg hstep ↦ ?_) ⟨hc, Nat.le_refl _⟩ hrun
    cases action with
    | send item =>
        simp only [FanOut.step] at hstep
        split at hstep
        · cases hstep
        · split at hstep <;> cases hstep <;> exact hg
    | close =>
        cases hstep
        exact hg
    | cancel =>
        cases hstep
        exact ⟨rfl, hg.2⟩
    | outside i op =>
        cases hstep
        exact hg
    | poll =>
        obtain ⟨hcancelled, -, htaken⟩ := flags_poll hstep
        exact ⟨hcancelled.trans hg.1, Nat.le_trans (htaken hg.1) hg.2⟩
  omega

/-- What a task has done for its sinks. -/
structure Serves (kind : SinkKind α S O) (states : List S) (f : FanOut α S O) : Prop where
  /-- There are the sinks it was started with; each is what its own history makes of it. -/
  alone : f.sinks.length = states.length ∧ ∀ (i : Nat) (sink : Sink α S O),
    f.sinks[i]? = some sink →
      ∃ state, states[i]? = some state ∧ sink = Sink.replay kind state sink.history
  /-- Each was offered what was sent, from the first item on, in order and none twice. -/
  inOrder : ∀ sink ∈ f.sinks, sink.offers <+: f.sent
  /-- When the task has stopped and was not cancelled, each was offered everything. -/
  everything : f.stage = .stopped → f.cancelled = false → ∀ sink ∈ f.sinks, sink.offers = f.sent
  /-- After a cancel the task takes one more item at most, and stops. -/
  prompt : f.cancelled = true → ∀ later f', run kind later f = some f' →
    f'.taken.length ≤ f.taken.length + 1 ∧ polls later ≤ f.sinks.length + 3
  /-- When nobody can send any more it stops. -/
  ends : f.sendersGone = true → ∀ later f', run kind later f = some f' →
    polls later ≤ (f.rx.queue.length + 2) * (f.sinks.length + 3)

theorem openings_le (f : FanOut α S O) : f.openings ≤ 1 := by
  unfold openings
  split
  · exact Nat.le_refl _
  · exact Nat.zero_le _

theorem stepsLeft_le_of_cancelled (hc : f.cancelled = true) :
    f.stepsLeft ≤ f.sinks.length + 3 := by
  simp only [stepsLeft, hc, if_true]
  split <;> omega

theorem stepsLeft_le (f : FanOut α S O) :
    f.stepsLeft ≤ (f.rx.queue.length + 2) * (f.sinks.length + 3) := by
  have hahead : (if f.cancelled then 0 else (f.rx.queue.length + 1) * (f.sinks.length + 3)) ≤
      (f.rx.queue.length + 1) * (f.sinks.length + 3) := by
    split
    · exact Nat.zero_le _
    · exact Nat.le_refl _
  rw [Nat.succ_mul (f.rx.queue.length + 1)]
  simp only [stepsLeft]
  generalize (if f.cancelled then 0 else (f.rx.queue.length + 1) * (f.sinks.length + 3)) = ahead
    at hahead
  split
  · omega
  · split <;> omega
  · omega
  · exact Nat.zero_le _

/-- **What a run does.** -/
theorem serves_run {capacity : Nat} {actions : List (Action α O)}
    (h : run kind actions (start capacity states) = some f) : f.Serves kind states := by
  have hf := keeps_run h
  constructor
  case alone => exact ⟨hf.serving.length, hf.serving.replayed⟩
  case inOrder => exact fun sink hsink ↦ hf.offers_prefix hsink
  case everything =>
    exact fun hstopped hcancelled sink hsink ↦ hf.offers_of_stopped hstopped hcancelled hsink
  case prompt =>
    intro hc later f' hlater
    have htaken := taken_run hc hlater
    have hsteps := stepsLeft_run (Or.inl hc) hlater
    have hleft := stepsLeft_le_of_cancelled hc
    have hopen := f.openings_le
    exact ⟨by omega, by omega⟩
  case ends =>
    intro hgone later f' hlater
    have hsteps := stepsLeft_run (Or.inr hgone) hlater
    have hleft := f.stepsLeft_le
    omega

end FanOut

end Koalisi.Lib
