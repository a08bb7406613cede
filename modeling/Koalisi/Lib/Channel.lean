import Mathlib.Data.List.Basic

/-!
# Bounded channels with a non-blocking send

A bounded queue between senders and one receiver.  `trySend` never waits: it
either enqueues, or says why it did not, which is that the queue is full or that
the receiver is gone.  A receiver that is gone is reported even when the queue is
full as well.
-/

universe u

namespace Koalisi.Lib

/-- A bounded channel; the queue never outgrows its capacity. -/
structure Channel (α : Type u) where
  capacity : Nat
  /-- Sent and not yet received, oldest first. -/
  queue : List α
  /-- The receiver is gone. -/
  closed : Bool
  bounded : queue.length ≤ capacity
deriving DecidableEq, Repr

/-- Why a send was refused. -/
inductive TrySendError where
  | full
  | closed
deriving DecidableEq, Repr

namespace Channel

variable {α : Type u}

/-- An empty channel. -/
def new (capacity : Nat) : Channel α where
  capacity := capacity
  queue := []
  closed := false
  bounded := Nat.zero_le _

/-- Send without waiting. -/
def trySend (c : Channel α) (a : α) : Except TrySendError (Channel α) :=
  if c.closed then .error .closed
  else if h : c.queue.length < c.capacity then
    .ok { c with queue := c.queue ++ [a], bounded := by rw [List.length_append]; exact h }
  else .error .full

/-- Take the oldest element. -/
def tryRecv (c : Channel α) : Option (α × Channel α) :=
  match h : c.queue with
  | [] => none
  | a :: queue => some (a, { c with
      queue := queue
      bounded := by
        have hc := c.bounded
        rw [h, List.length_cons] at hc
        exact Nat.le_of_succ_le hc })

/-- The receiver is dropped. -/
def close (c : Channel α) : Channel α := { c with closed := true }

/-- An open channel with room takes the element. -/
theorem trySend_of_room {c : Channel α} (ho : c.closed = false)
    (hr : c.queue.length < c.capacity) (a : α) :
    ∃ c', c.trySend a = .ok c' ∧ c'.queue = c.queue ++ [a] := by
  rw [trySend, if_neg (by rw [ho]; exact Bool.false_ne_true), dif_pos hr]
  exact ⟨_, rfl, rfl⟩

/-- What a successful send did. -/
theorem trySend_ok {c c' : Channel α} {a : α} (h : c.trySend a = .ok c') :
    c'.queue = c.queue ++ [a] := by
  unfold trySend at h
  split at h
  · cases h
  · split at h
    · cases h
      rfl
    · cases h

/-- A send succeeds on an open channel with room, and leaves it open. -/
theorem trySend_ok_open {c c' : Channel α} {a : α} (h : c.trySend a = .ok c') :
    c.closed = false ∧ c'.closed = false ∧ c.queue.length < c.capacity ∧
      c'.capacity = c.capacity := by
  unfold trySend at h
  split at h
  · cases h
  · rename_i hc
    rw [Bool.not_eq_true] at hc
    split at h
    · rename_i hr
      cases h
      exact ⟨hc, hc, hr, rfl⟩
    · cases h

/-- A send is refused as closed by a closed channel only. -/
theorem trySend_closed {c : Channel α} {a : α} (h : c.trySend a = .error .closed) :
    c.closed = true := by
  unfold trySend at h
  split at h
  · assumption
  · split at h <;> cases h

/-- What a successful receive did. -/
theorem tryRecv_some {c c' : Channel α} {a : α} (h : c.tryRecv = some (a, c')) :
    c.queue = a :: c'.queue := by
  unfold tryRecv at h
  split at h
  · cases h
  · rename_i b queue hq
    cases h
    exact hq

/-- A receive leaves the channel open or closed as it was. -/
theorem tryRecv_some_rest {c c' : Channel α} {a : α} (h : c.tryRecv = some (a, c')) :
    c'.closed = c.closed ∧ c'.capacity = c.capacity := by
  unfold tryRecv at h
  split at h
  · cases h
  · cases h
    exact ⟨rfl, rfl⟩

/-- An empty channel has nothing to receive. -/
theorem tryRecv_of_nil {c : Channel α} (h : c.queue = []) : c.tryRecv = none := by
  unfold tryRecv
  split
  · rfl
  · rename_i hq
    rw [h] at hq
    cases hq

/-- There is nothing to receive from an empty channel only. -/
theorem tryRecv_none {c : Channel α} (h : c.tryRecv = none) : c.queue = [] := by
  unfold tryRecv at h
  split at h
  · rename_i hq
    exact hq
  · cases h

end Channel

end Koalisi.Lib
