import Mathlib.Data.List.ReduceOption
import Koalisi.Lib.Channel
import Koalisi.Lib.Fallible

/-!
# A receiver that is read until a cancel

`CancelDrain` yields the items of a channel, one for each call of `next`.  The call that
observes the cancel counts what is buffered; so many items are still yielded, whatever is
sent meanwhile, and then nothing is.

A call is not one step.  It asks the token, then the receiver, and waits if neither has an
answer; once the cancel is observed it counts, and then it takes.  Senders and the token
move between any two of these.
-/

namespace Koalisi.Core

open Koalisi.Lib Koalisi.Lib.Fallible

variable {α : Type}

structure CancelDrain (α : Type) where
  rx : Channel α
  /-- How many items are still to be yielded, once the cancel was observed. -/
  remaining : Option Nat

/-- Where a call of `next` stands. -/
inductive Stage where
  /-- No call is in progress. -/
  | idle
  /-- It asks the token, before it asks the receiver. -/
  | selecting
  /-- The token was not cancelled: it asks the receiver. -/
  | receiving
  /-- The cancel was observed: it counts what is buffered. -/
  | counting
  /-- It takes one of the items that were counted. -/
  | taking
deriving DecidableEq, Repr

namespace CancelDrain

def new (rx : Channel α) : CancelDrain α := { rx, remaining := none }

/-- Where a call starts. -/
def enter (drain : CancelDrain α) : Stage :=
  if drain.remaining.isNone then .selecting else .taking

/-- Take an item off the receiver, if there is one. -/
def tryRecv (drain : CancelDrain α) : Option α × CancelDrain α :=
  match drain.rx.tryRecv with
  | some (item, rx) => (some item, { drain with rx })
  | none => (none, drain)

/-- Take one of the items that were counted. -/
def take (drain : CancelDrain α) : Option α × CancelDrain α :=
  match drain.remaining with
  | none => (none, drain)
  | some 0 => (none, drain)
  | some (remaining + 1) => { drain with remaining := some remaining }.tryRecv

/-- One step of a call: what becomes of the drain, where the call stands then, and what it
returns if it is over. -/
def next (drain : CancelDrain α) (cancelled sendersGone : Bool) :
    Stage → Option (CancelDrain α × Stage × Option (Option α))
  | .idle => none
  | .selecting => some (drain, if cancelled then .counting else .receiving, none)
  | .receiving =>
      match drain.tryRecv with
      | (some item, drain) => some (drain, .idle, some (some item))
      | (none, drain) =>
          if sendersGone then some (drain, .idle, some none)
          -- nothing yet: it waits, and asks the token again when it is woken
          else some (drain, .selecting, none)
  | .counting => some ({ drain with remaining := some drain.rx.queue.length }, .taking, none)
  | .taking => some (drain.take.2, .idle, some drain.take.1)

end CancelDrain

/-! ## Senders, the token, and calls -/

/-- A drain in use, with a record of what was sent and of what the calls returned. -/
structure Session (α : Type) where
  drain : CancelDrain α
  stage : Stage
  cancelled : Bool
  /-- No sender is left. -/
  sendersGone : Bool
  sent : List α
  returned : List (Option α)

namespace Session

/-- What can happen. -/
inductive Action (α : Type) where
  /-- A sender sends an item; it waits while there is no room. -/
  | send (item : α)
  /-- The last sender is dropped. -/
  | close
  | cancel
  /-- A call of `next` is made. -/
  | call
  /-- The call in progress takes a step. -/
  | poll
deriving DecidableEq, Repr

/-- A drain over an empty channel. -/
def start (capacity : Nat) : Session α where
  drain := .new (.new capacity)
  stage := .idle
  cancelled := false
  sendersGone := false
  sent := []
  returned := []

/-- One action, if it is possible. -/
def step (s : Session α) : Action α → Option (Session α)
  | .send item =>
      if s.sendersGone then none
      else match s.drain.rx.trySend item with
        | .ok rx => some { s with drain := { s.drain with rx }, sent := s.sent ++ [item] }
        | .error _ => none
  | .close => some { s with sendersGone := true }
  | .cancel => some { s with cancelled := true }
  | .call => if s.stage = .idle then some { s with stage := s.drain.enter } else none
  | .poll => (s.drain.next s.cancelled s.sendersGone s.stage).map fun (drain, stage, result) ↦
      { s with drain, stage, returned := s.returned ++ result.toList }

/-- Actions one after the other. -/
def run (actions : List (Action α)) (s : Session α) : Option (Session α) := actions.foldlM step s

/-- The items that were yielded. -/
def yielded (s : Session α) : List α := s.returned.reduceOption

end Session

/-! ## Nothing is lost -/

variable {drain drain' : CancelDrain α} {s s' t : Session α}

namespace CancelDrain

theorem tryRecv_eq (drain : CancelDrain α) :
    drain.tryRecv.1 = drain.rx.queue.head? ∧ drain.tryRecv.2.rx.queue = drain.rx.queue.tail ∧
      drain.tryRecv.2.remaining = drain.remaining := by
  unfold tryRecv
  cases h : drain.rx.tryRecv with
  | none =>
      have hnil := Channel.tryRecv_none h
      simp [hnil]
  | some received =>
      rw [Channel.tryRecv_some h]
      exact ⟨rfl, rfl, rfl⟩

theorem tryRecv_conserves (drain : CancelDrain α) :
    drain.tryRecv.1.toList ++ drain.tryRecv.2.rx.queue = drain.rx.queue := by
  obtain ⟨hitem, hqueue, -⟩ := drain.tryRecv_eq
  rw [hitem, hqueue]
  cases drain.rx.queue with
  | nil => rfl
  | cons first queue => rfl

theorem take_of_zero (h : drain.remaining = some 0) : drain.take = (none, drain) := by
  unfold take
  rw [h]

theorem take_of_succ {remaining : Nat} (h : drain.remaining = some (remaining + 1)) :
    drain.take = { drain with remaining := some remaining }.tryRecv := by
  unfold take
  rw [h]

theorem take_conserves (drain : CancelDrain α) :
    drain.take.1.toList ++ drain.take.2.rx.queue = drain.rx.queue := by
  unfold take
  split
  · rfl
  · rfl
  · next remaining _ => exact tryRecv_conserves { drain with remaining := some remaining }

/-- What a call returns is taken off the channel. -/
theorem next_conserves {cancelled sendersGone : Bool} {stage stage' : Stage}
    {result : Option (Option α)}
    (h : drain.next cancelled sendersGone stage = some (drain', stage', result)) :
    result.toList.reduceOption ++ drain'.rx.queue = drain.rx.queue := by
  cases stage with
  | idle => cases h
  | selecting =>
      cases h
      rfl
  | receiving =>
      have hconserves := drain.tryRecv_conserves
      simp only [next] at h
      generalize drain.tryRecv = received at h hconserves
      obtain ⟨item, rest⟩ := received
      cases item with
      | none =>
          simp only at h
          split at h
          · cases h
            exact hconserves
          · cases h
            exact hconserves
      | some item =>
          cases h
          exact hconserves
  | counting =>
      cases h
      rfl
  | taking =>
      cases h
      have hconserves := drain.take_conserves
      cases hitem : drain.take.1 with
      | none =>
          rw [hitem] at hconserves
          exact hconserves
      | some item =>
          rw [hitem] at hconserves
          exact hconserves

/-- The `k`-th call takes the `k`-th of the items that were counted, if there are so many. -/
theorem take_eq {buffered : List α} {k : Nat}
    (hremaining : drain.remaining = some (buffered.length - k))
    (hleft : buffered.drop k <+: drain.rx.queue) :
    drain.take.1 = buffered[k]? ∧ drain.take.2.remaining = some (buffered.length - (k + 1)) ∧
      buffered.drop (k + 1) <+: drain.take.2.rx.queue := by
  by_cases hk : k < buffered.length
  · have hsucc : buffered.length - k = buffered.length - (k + 1) + 1 := by omega
    rw [hsucc] at hremaining
    rw [take_of_succ hremaining]
    obtain ⟨hitem, hqueue, hrest⟩ :=
      tryRecv_eq { drain with remaining := some (buffered.length - (k + 1)) }
    rw [hitem, hqueue, hrest, List.getElem?_eq_getElem hk]
    rw [List.drop_eq_getElem_cons hk] at hleft
    obtain ⟨later, hlater⟩ := hleft
    rw [← hlater]
    exact ⟨rfl, rfl, List.prefix_append _ _⟩
  · have hzero : buffered.length - k = 0 := by omega
    rw [hzero] at hremaining
    rw [take_of_zero hremaining, List.getElem?_eq_none (Nat.le_of_not_lt hk),
      List.drop_eq_nil_of_le (by omega)]
    exact ⟨rfl, hremaining.trans (congrArg some (by omega)), List.nil_prefix⟩

end CancelDrain

namespace Session

/-- What was sent and not yet yielded is buffered. -/
def Lossless (s : Session α) : Prop := s.sent = s.yielded ++ s.drain.rx.queue

/-- What a send did. -/
theorem step_send {item : α} (h : s.step (.send item) = some s') :
    ∃ rx : Channel α, rx.queue = s.drain.rx.queue ++ [item] ∧
      s' = { s with drain := { s.drain with rx }, sent := s.sent ++ [item] } := by
  simp only [step] at h
  split at h
  · cases h
  · split at h
    · next rx hsend =>
        cases h
        exact ⟨rx, Channel.trySend_ok hsend, rfl⟩
    · cases h

/-- What making a call did. -/
theorem step_call (h : s.step .call = some s') :
    s.stage = .idle ∧ s' = { s with stage := s.drain.enter } := by
  simp only [step] at h
  split at h
  · next hidle =>
      cases h
      exact ⟨hidle, rfl⟩
  · cases h

theorem Lossless.step (h : s.Lossless) {action : Action α} (hstep : s.step action = some s') :
    s'.Lossless := by
  cases action with
  | send item =>
      obtain ⟨rx, hqueue, rfl⟩ := step_send hstep
      change s.sent ++ [item] = s.yielded ++ rx.queue
      rw [hqueue, h, List.append_assoc]
  | close =>
      cases hstep
      exact h
  | cancel =>
      cases hstep
      exact h
  | call =>
      obtain ⟨-, rfl⟩ := step_call hstep
      exact h
  | poll =>
      obtain ⟨⟨drain, stage, result⟩, hnext, rfl⟩ := Option.map_eq_some_iff.mp hstep
      change s.sent = (s.returned ++ result.toList).reduceOption ++ drain.rx.queue
      rw [List.reduceOption_append, List.append_assoc, CancelDrain.next_conserves hnext]
      exact h

theorem lossless_run {capacity : Nat} {actions : List (Action α)}
    (h : run actions (start capacity) = some s) : s.Lossless :=
  foldlM_inv (P := Lossless) (s := start capacity) (fun _ _ _ _ hs hstep ↦ hs.step hstep) rfl h

/-! ## The cancel is observed -/

/-- A call counts after a cancel, and nothing has been counted before. -/
def Ordered (s : Session α) : Prop :=
  match s.stage with
  | .idle => True
  | .selecting => s.drain.remaining = none
  | .receiving => s.drain.remaining = none
  | .counting => s.cancelled = true ∧ s.drain.remaining = none
  | .taking => True

theorem Ordered.step (h : s.Ordered) {action : Action α} (hstep : s.step action = some s') :
    s'.Ordered := by
  obtain ⟨⟨rx, remaining⟩, stage, cancelled, sendersGone, sent, returned⟩ := s
  cases action with
  | send item =>
      obtain ⟨rx, -, rfl⟩ := step_send hstep
      exact h
  | close =>
      cases hstep
      exact h
  | cancel =>
      cases hstep
      cases stage with
      | counting => exact ⟨rfl, h.2⟩
      | _ => exact h
  | call =>
      obtain ⟨-, rfl⟩ := step_call hstep
      cases remaining with
      | none => exact rfl
      | some n => exact trivial
  | poll =>
      obtain ⟨⟨drain, stage', result⟩, hnext, rfl⟩ := Option.map_eq_some_iff.mp hstep
      cases stage with
      | idle => cases hnext
      | selecting =>
          cases hnext
          cases cancelled with
          | false => exact h
          | true => exact ⟨rfl, h⟩
      | receiving =>
          have hremaining := (CancelDrain.tryRecv_eq ⟨rx, remaining⟩).2.2
          simp only [CancelDrain.next] at hnext
          generalize CancelDrain.tryRecv ⟨rx, remaining⟩ = received at hnext hremaining
          obtain ⟨item, rest⟩ := received
          cases item with
          | none =>
              simp only at hnext
              split at hnext
              · cases hnext
                exact trivial
              · cases hnext
                exact hremaining.trans h
          | some item =>
              cases hnext
              exact trivial
      | counting =>
          cases hnext
          exact trivial
      | taking =>
          cases hnext
          exact trivial

theorem ordered_run {capacity : Nat} {actions : List (Action α)}
    (h : run actions (start capacity) = some s) : s.Ordered :=
  foldlM_inv (P := Ordered) (s := start capacity) (fun _ _ _ _ hs hstep ↦ hs.step hstep) trivial h

/-- Since the cancel was observed, the calls have returned the items that were buffered then,
one after the other, and nothing when these were used up. -/
structure Drains (buffered : List α) (before : List (Option α)) (s : Session α) (k : Nat) :
    Prop where
  returned : s.returned = before ++ (List.range k).map (buffered[·]?)
  remaining : s.drain.remaining = some (buffered.length - k)
  left : buffered.drop k <+: s.drain.rx.queue
  stage : s.stage = .idle ∨ s.stage = .taking

/-- One action drains no more and no less. -/
theorem Drains.step {buffered : List α} {before : List (Option α)} {k : Nat}
    (h : s.Drains buffered before k) {action : Action α} (hstep : s.step action = some s') :
    s'.Drains buffered before k ∨ s'.Drains buffered before (k + 1) := by
  cases action with
  | send item =>
      obtain ⟨rx, hqueue, rfl⟩ := step_send hstep
      refine Or.inl ⟨h.returned, h.remaining, ?_, h.stage⟩
      change buffered.drop k <+: rx.queue
      rw [hqueue]
      exact h.left.trans (List.prefix_append _ _)
  | close =>
      cases hstep
      exact Or.inl ⟨h.returned, h.remaining, h.left, h.stage⟩
  | cancel =>
      cases hstep
      exact Or.inl ⟨h.returned, h.remaining, h.left, h.stage⟩
  | call =>
      obtain ⟨-, rfl⟩ := step_call hstep
      refine Or.inl ⟨h.returned, h.remaining, h.left, Or.inr ?_⟩
      rw [CancelDrain.enter, h.remaining]
      rfl
  | poll =>
      obtain ⟨⟨drain, stage, result⟩, hnext, rfl⟩ := Option.map_eq_some_iff.mp hstep
      rcases h.stage with hstage | hstage
      · rw [hstage] at hnext
        cases hnext
      · rw [hstage] at hnext
        cases hnext
        obtain ⟨hitem, hremaining, hleft⟩ := CancelDrain.take_eq h.remaining h.left
        refine Or.inr ⟨?_, hremaining, hleft, Or.inl rfl⟩
        change s.returned ++ [s.drain.take.1] = _
        rw [hitem, h.returned, List.range_succ, List.map_append, List.append_assoc]
        rfl

theorem Drains.run {buffered : List α} {before : List (Option α)} {k : Nat}
    (h : s.Drains buffered before k) {actions : List (Action α)}
    (hrun : s.run actions = some s') : ∃ k', s'.Drains buffered before k' := by
  refine foldlM_inv (P := fun s ↦ ∃ k, Drains buffered before s k)
    (fun _ _ s s' hs hstep ↦ ?_) ⟨k, h⟩ hrun
  obtain ⟨k, hk⟩ := hs
  rcases hk.step hstep with hk' | hk'
  · exact ⟨k, hk'⟩
  · exact ⟨k + 1, hk'⟩

/-- A call returns without waiting. -/
theorem Drains.returns {buffered : List α} {before : List (Option α)} {k : Nat}
    (h : s.Drains buffered before k) :
    ∃ s', s.run (if s.stage = .idle then [.call, .poll] else [.poll]) = some s' ∧
      s'.returned = s.returned ++ [buffered[k]?] := by
  have hitem := (CancelDrain.take_eq h.remaining h.left).1
  have hremaining := h.remaining
  have hstage := h.stage
  obtain ⟨drain, stage, cancelled, sendersGone, sent, returned⟩ := s
  rcases hstage with rfl | rfl
  · have henter : drain.enter = .taking := by
      rw [CancelDrain.enter, hremaining]
      rfl
    refine ⟨⟨drain.take.2, .idle, cancelled, sendersGone, sent, returned ++ [drain.take.1]⟩, ?_, ?_⟩
    · simp [Session.run, Session.step, henter, CancelDrain.next]
    · exact congrArg (returned ++ [·]) hitem
  · refine ⟨⟨drain.take.2, .idle, cancelled, sendersGone, sent, returned ++ [drain.take.1]⟩, rfl,
      ?_⟩
    exact congrArg (returned ++ [·]) hitem

/-- **What a drain delivers.**  The items that were yielded are those that were sent, in
order, up to those still buffered.  When the cancel is observed, which happens once, the calls
from then on return the items that are buffered at that moment, and then nothing for ever,
whatever is sent; and none of them waits. -/
theorem cancel_drain_delivers {capacity : Nat} {actions : List (Action α)} {s : Session α}
    (h : run actions (start capacity) = some s) :
    s.sent = s.yielded ++ s.drain.rx.queue ∧
      (s.stage = .counting → s.cancelled = true ∧ ∀ s₁ later s₂, s.step .poll = some s₁ →
        s₁.run later = some s₂ → s₂.stage ≠ .counting ∧
          ∃ k, s₂.returned = s.returned ++ (List.range k).map (s.drain.rx.queue[·]?) ∧
            ∃ s₃, s₂.run (if s₂.stage = .idle then [.call, .poll] else [.poll]) = some s₃ ∧
              s₃.returned = s₂.returned ++ [s.drain.rx.queue[k]?]) := by
  refine ⟨lossless_run h, fun hcounting ↦ ?_⟩
  have hordered := ordered_run h
  rw [Ordered, hcounting] at hordered
  refine ⟨hordered.1, fun s₁ later s₂ hpoll hlater ↦ ?_⟩
  have hdrains : s₁.Drains s.drain.rx.queue s.returned 0 := by
    obtain ⟨⟨drain, stage, result⟩, hnext, rfl⟩ := Option.map_eq_some_iff.mp hpoll
    rw [hcounting] at hnext
    cases hnext
    exact ⟨rfl, rfl, List.prefix_refl _, Or.inr rfl⟩
  obtain ⟨k, hk⟩ := hdrains.run hlater
  refine ⟨fun hstage ↦ ?_, k, hk.returned, hk.returns⟩
  rcases hk.stage with hidle | htaking
  · cases hidle.symm.trans hstage
  · cases htaking.symm.trans hstage

/-- Two items are buffered when the cancel is observed; a third one is sent while they are
drained. -/
theorem the_sample_is_drained : ∃ s s₁ s₂ : Session Nat,
    run [.send 1, .send 2, .cancel, .call, .poll] (start 2) = some s ∧ s.step .poll = some s₁ ∧
      s₁.run [.poll, .send 3, .call, .poll, .call] = some s₂ ∧
      s.sent = s.yielded ++ s.drain.rx.queue ∧ s₂.stage ≠ .counting ∧
      ∃ k, s₂.returned = s.returned ++ (List.range k).map (s.drain.rx.queue[·]?) := by
  have hrun : (do
      let s ← run [.send 1, .send 2, .cancel, .call, .poll] (start 2)
      let s₁ ← s.step .poll
      let s₂ ← s₁.run [.poll, .send 3, .call, .poll, .call]
      return (s.stage, s₂.stage) : Option (Stage × Stage)) = some (.counting, .taking) := by
    decide
  obtain ⟨s, hs, hrun⟩ := Option.bind_eq_some_iff.mp hrun
  obtain ⟨s₁, hs₁, hrun⟩ := Option.bind_eq_some_iff.mp hrun
  obtain ⟨s₂, hs₂, hrun⟩ := Option.bind_eq_some_iff.mp hrun
  obtain ⟨hcounting, -⟩ := Prod.mk.inj (Option.some.inj hrun)
  obtain ⟨hlossless, hdrains⟩ := cancel_drain_delivers hs
  obtain ⟨hstage, k, hreturned, -⟩ := (hdrains hcounting).2 s₁ _ s₂ hs₁ hs₂
  exact ⟨s, s₁, s₂, hs, hs₁, hs₂, hlossless, hstage, k, hreturned⟩

end Session

end Koalisi.Core
