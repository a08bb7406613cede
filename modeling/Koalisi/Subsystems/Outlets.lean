import Mathlib.Algebra.BigOperators.Group.List.Lemmas
import Mathlib.Data.UInt
import Koalisi.Algorithms.Feedback
import Koalisi.Lib.Fanout
import Koalisi.Subsystems.CoalitionActor

/-!
# Where outcomes and decisions go

Two tasks hand on what they read from a tap.  The outcome forwarder hands each task outcome to every
sink: a feedback store, or a closure that may panic.  The decision tee sends each decision record to
every sink channel, and does not wait for room.

Both are a `FanOut`.  So a sink gets what was taken off the tap, in order; one that panics, or whose
channel is full or closed, is warned about and misses that item, and the others are as if it were
not there (`outcomes_reach_every_sink`, `tee_thins_its_own_sinks`).

The counts of a store are those of its own history: every outcome it was offered, and whatever its
other handles recorded in between, each member once for every time it is listed
(`stores_count_outcomes`).  Counts are `u64` and wrap around.
-/

namespace Koalisi.Algorithms

open Koalisi.Decision
open Koalisi.Topology (U64)

/-! ## Recording -/

/-- Change the counts of an agent; they are zero if there are none. -/
def FeedbackStore.update (store : FeedbackStore) (agentId : Nat)
    (f : AgentFeedback → AgentFeedback) : FeedbackStore where
  records id := if id = agentId then some (f ((store.records id).getD ⟨0, 0⟩)) else store.records id

/-- A store with its threshold. -/
structure StoreInner (F : Type) where
  /-- Outcomes strictly below this value count as failures. -/
  failureThreshold : F
  counts : FeedbackStore

namespace StoreInner

variable {F : Type}

/-- An empty store. -/
def new (failureThreshold : F) : StoreInner F := ⟨failureThreshold, ⟨fun _ ↦ none⟩⟩

/-- Count an agent once. -/
def bump (isFailure : Bool) (record : AgentFeedback) : AgentFeedback where
  history := record.history + 1
  failures := if isFailure then record.failures + 1 else record.failures

/-- Record a coalition outcome; one that is not finite is ignored. -/
def recordOutcome [FloatingPoint F] (inner : StoreInner F) (members : List Nat) (value : F) :
    StoreInner F :=
  if FloatingPoint.isFinite value then
    let isFailure := decide (value < inner.failureThreshold)
    { inner with
      counts := members.foldl (fun store id ↦ store.update id (bump isFailure)) inner.counts }
  else inner

/-- Add episodes to the history of an agent. -/
def addHistory (inner : StoreInner F) (agentId : Nat) (episodes : U64) : StoreInner F :=
  { inner with
    counts := inner.counts.update agentId fun record ↦
      { record with history := record.history + episodes } }

end StoreInner

end Koalisi.Algorithms

namespace Koalisi.Subsystems

open Koalisi.Algorithms Koalisi.Decision Koalisi.Lib
open Koalisi.Topology (U64)

variable {F C Score : Type}

/-! ## Outcomes -/

/-- A task that is completed. -/
structure TaskOutcome where
  required : UInt32
  /-- Final members; one that is listed twice counts twice. -/
  members : List Nat
  success : Bool
deriving DecidableEq, Repr

/-- Emit an outcome on the tap, if there is one; a full or closed tap drops it. -/
def emitOutcome (tap : Option (DecisionTap TaskOutcome)) (outcome : TaskOutcome) :
    Option (DecisionTap TaskOutcome) := tap.map (·.tryEmit outcome)

/-- What outcomes are handed to. -/
inductive OutcomeSink (F C : Type) where
  | store (inner : StoreInner F)
  /-- A closure, by what it has captured. -/
  | closure (captured : C)

/-- What others do to a sink. -/
inductive SinkUse (F C : Type) where
  /-- Another handle of a store records an outcome. -/
  | record (members : List Nat) (value : F)
  | addHistory (agentId : Nat) (episodes : U64)
  /-- What a closure has captured changes. -/
  | change (f : C → C)

namespace OutcomeSink

variable [FloatingPoint F]

/-- Success as a value. -/
def scalar (outcome : TaskOutcome) : F := if outcome.success then 1.0 else 0.0

/-- Hand an outcome to a sink: what the sink is then, and whether it panicked. -/
def onOutcome (call : TaskOutcome → C → C × Bool) (outcome : TaskOutcome) :
    OutcomeSink F C → OutcomeSink F C × Bool
  | .store inner => (.store (inner.recordOutcome outcome.members (scalar outcome)), false)
  | .closure captured => (.closure (call outcome captured).1, (call outcome captured).2)

def use : SinkUse F C → OutcomeSink F C → OutcomeSink F C
  | .record members value, .store inner => .store (inner.recordOutcome members value)
  | .addHistory agentId episodes, .store inner => .store (inner.addHistory agentId episodes)
  | .change f, .closure captured => .closure (f captured)
  | _, sink => sink

/-- Outcome sinks, where closures do what `call` says. -/
def kind (call : TaskOutcome → C → C × Bool) : SinkKind TaskOutcome (OutcomeSink F C) (SinkUse F C)
    where
  deliver := onOutcome call
  serve := use

end OutcomeSink

/-- The outcome forwarder, with its tap and its sinks. -/
abbrev OutcomeForwarder (F C : Type) := FanOut TaskOutcome (OutcomeSink F C) (SinkUse F C)

/-! ## The counts of a store -/

section Counts

/-- What a store has counted of an agent. -/
def countsOf (store : FeedbackStore) (id : Nat) : AgentFeedback :=
  (store.records id).getD ⟨0, 0⟩

theorem history_eq_countsOf (store : FeedbackStore) (id : Nat) :
    store.history id = (countsOf store id).history := by
  rw [FeedbackStore.history, countsOf]
  cases store.records id <;> rfl

theorem failures_eq_countsOf (store : FeedbackStore) (id : Nat) :
    store.failures id = (countsOf store id).failures := by
  rw [FeedbackStore.failures, countsOf]
  cases store.records id <;> rfl

theorem countsOf_update (store : FeedbackStore) (agentId id : Nat)
    (f : AgentFeedback → AgentFeedback) :
    countsOf (store.update agentId f) id =
      if id = agentId then f (countsOf store id) else countsOf store id := by
  by_cases h : id = agentId
  · simp [countsOf, FeedbackStore.update, h]
  · simp [countsOf, FeedbackStore.update, h]

/-- The counts have grown by so much, as `u64` counts do. -/
structure Grows (before after : AgentFeedback) (history failures : Nat) : Prop where
  history : after.history.val = (before.history.val + history) % 2 ^ 64
  failures : after.failures.val = (before.failures.val + failures) % 2 ^ 64

theorem Grows.refl (record : AgentFeedback) : Grows record record 0 0 where
  history := (Nat.mod_eq_of_lt record.history.isLt).symm
  failures := (Nat.mod_eq_of_lt record.failures.isLt).symm

theorem Grows.trans {a b c : AgentFeedback} {m n m' n' : Nat} (h : Grows a b m n)
    (h' : Grows b c m' n') : Grows a c (m + m') (n + n') where
  history := by rw [h'.history, h.history, Nat.mod_add_mod, Nat.add_assoc]
  failures := by rw [h'.failures, h.failures, Nat.mod_add_mod, Nat.add_assoc]

theorem grows_bump (isFailure : Bool) (record : AgentFeedback) :
    Grows record (StoreInner.bump isFailure record) 1 (if isFailure then 1 else 0) := by
  cases isFailure with
  | true => exact ⟨rfl, rfl⟩
  | false => exact ⟨rfl, (Grows.refl record).failures⟩

/-- Counting some members counts each as often as it is listed. -/
theorem grows_foldl_bump (isFailure : Bool) (members : List Nat) (store : FeedbackStore)
    (id : Nat) :
    Grows (countsOf store id)
      (countsOf (members.foldl (fun store id ↦ store.update id (StoreInner.bump isFailure)) store)
        id) (members.count id) (if isFailure then members.count id else 0) := by
  induction members generalizing store with
  | nil =>
      rw [List.count_nil, ite_self]
      exact .refl _
  | cons member members ih =>
      have hrest := ih (store.update member (StoreInner.bump isFailure))
      rw [countsOf_update] at hrest
      rw [List.foldl_cons, List.count_cons]
      by_cases h : id = member
      · subst h
        rw [if_pos rfl] at hrest
        have hboth := (grows_bump isFailure (countsOf store id)).trans hrest
        rw [if_pos BEq.rfl, Nat.add_comm]
        cases isFailure with
        | true => exact hboth
        | false => exact hboth
      · rw [if_neg h] at hrest
        rwa [if_neg (by simpa using Ne.symm h)]

/-- Episodes are added to one agent. -/
theorem grows_addHistory (inner : StoreInner F) (agentId episodes id : Nat) :
    Grows (countsOf inner.counts id)
      (countsOf (inner.addHistory agentId (Fin.ofNat _ episodes)).counts id)
      (if id = agentId then episodes else 0) 0 := by
  rw [StoreInner.addHistory, countsOf_update]
  split
  · refine ⟨?_, (Grows.refl _).failures⟩
    change ((countsOf inner.counts id).history + Fin.ofNat _ episodes).val = _
    rw [Fin.val_add, Fin.val_ofNat, Nat.add_mod_mod]
  · exact .refl _

variable [FloatingPoint F]

/-- How often an agent is counted for an outcome; not at all if the value is not finite. -/
def recorded (members : List Nat) (value : F) (id : Nat) : Nat :=
  if FloatingPoint.isFinite value then members.count id else 0

/-- What happens to a store adds so much to the history of an agent. -/
def addsHistory (id : Nat) : SinkOp TaskOutcome (SinkUse F C) → Nat
  | .offer outcome => recorded outcome.members (OutcomeSink.scalar outcome : F) id
  | .outside (.record members value) => recorded members value id
  | .outside (.addHistory agentId episodes) => if id = agentId then episodes.val else 0
  | .outside (.change _) => 0

/-- And so much to its failures. -/
def addsFailures (failureThreshold : F) (id : Nat) : SinkOp TaskOutcome (SinkUse F C) → Nat
  | .offer outcome =>
      if (OutcomeSink.scalar outcome : F) < failureThreshold then
        recorded outcome.members (OutcomeSink.scalar outcome : F) id
      else 0
  | .outside (.record members value) =>
      if value < failureThreshold then recorded members value id else 0
  | .outside (.addHistory _ _) => 0
  | .outside (.change _) => 0

/-- What recording an outcome does to the counts. -/
theorem grows_recordOutcome (inner : StoreInner F) (members : List Nat) (value : F) (id : Nat) :
    Grows (countsOf inner.counts id) (countsOf (inner.recordOutcome members value).counts id)
      (recorded members value id)
      (if value < inner.failureThreshold then recorded members value id else 0) := by
  simp only [StoreInner.recordOutcome, recorded]
  cases FloatingPoint.isFinite value with
  | true =>
      have h := grows_foldl_bump (decide (value < inner.failureThreshold)) members inner.counts id
      simp only [decide_eq_true_eq] at h
      exact h
  | false =>
      simp only [Bool.false_eq_true, if_false, ite_self]
      exact .refl _

/-- A store grows by what happens to it. -/
theorem grows_apply (call : TaskOutcome → C → C × Bool)
    {sink : Sink TaskOutcome (OutcomeSink F C) (SinkUse F C)} {inner : StoreInner F}
    (hstate : sink.state = .store inner) (op : SinkOp TaskOutcome (SinkUse F C)) :
    ∃ after : StoreInner F, (sink.apply (OutcomeSink.kind call) op).state = .store after ∧
      after.failureThreshold = inner.failureThreshold ∧
      ∀ id, Grows (countsOf inner.counts id) (countsOf after.counts id) (addsHistory id op)
        (addsFailures inner.failureThreshold id op) := by
  have hthreshold (members : List Nat) (value : F) :
      (inner.recordOutcome members value).failureThreshold = inner.failureThreshold := by
    rw [StoreInner.recordOutcome]
    split <;> rfl
  cases op with
  | offer outcome =>
      refine ⟨inner.recordOutcome outcome.members (OutcomeSink.scalar outcome), ?_,
        hthreshold _ _, grows_recordOutcome inner _ _⟩
      simp only [Sink.apply, hstate]
      rfl
  | outside use =>
      cases use with
      | record members value =>
          refine ⟨inner.recordOutcome members value, ?_, hthreshold _ _,
            grows_recordOutcome inner _ _⟩
          simp only [Sink.apply, hstate]
          rfl
      | addHistory agentId episodes =>
          refine ⟨inner.addHistory agentId episodes, ?_, rfl, fun id ↦ ?_⟩
          · simp only [Sink.apply, hstate]
            rfl
          · have hgrows := grows_addHistory inner agentId episodes.val id
            rw [Fin.ofNat_val_eq_self] at hgrows
            exact hgrows
      | change f =>
          refine ⟨inner, ?_, rfl, fun id ↦ .refl _⟩
          simp only [Sink.apply, hstate]
          rfl

/-- The counts of a store are those of its history. -/
theorem grows_replay (call : TaskOutcome → C → C × Bool) (inner : StoreInner F)
    (history : List (SinkOp TaskOutcome (SinkUse F C))) :
    ∃ after : StoreInner F,
      (Sink.replay (OutcomeSink.kind call) (.store inner) history).state = .store after ∧
      after.failureThreshold = inner.failureThreshold ∧
      ∀ id, Grows (countsOf inner.counts id) (countsOf after.counts id)
        (history.map (addsHistory id)).sum
        (history.map (addsFailures inner.failureThreshold id)).sum := by
  induction history using List.reverseRecOn with
  | nil => exact ⟨inner, rfl, rfl, fun id ↦ .refl _⟩
  | append_singleton history op ih =>
      obtain ⟨before, hstate, hthreshold, hgrows⟩ := ih
      obtain ⟨after, hafter, hthreshold', hgrows'⟩ := grows_apply call hstate op
      rw [Sink.replay_concat]
      refine ⟨after, hafter, hthreshold'.trans hthreshold, fun id ↦ ?_⟩
      have hboth := (hgrows id).trans (hgrows' id)
      rw [hthreshold] at hboth
      rwa [List.map_append, List.sum_append, List.map_append, List.sum_append, List.map_singleton,
        List.sum_singleton, List.map_singleton, List.sum_singleton]

/-- **Outcomes.**  However senders, a cancel, other users of the sinks and the forwarder itself take
turns, every sink gets the outcomes in order, a panicking one concerns nobody else, and the
forwarder stops.  A store has counted the outcomes it was offered, and what its other handles
recorded. -/
theorem outcomes_reach_every_sink (call : TaskOutcome → C → C × Bool) {capacity : Nat}
    {sinks : List (OutcomeSink F C)}
    {actions : List (FanOut.Action TaskOutcome (SinkUse F C))} {f : OutcomeForwarder F C}
    (h : FanOut.run (OutcomeSink.kind call) actions (.start capacity sinks) = some f) :
    f.Serves (OutcomeSink.kind call) sinks ∧
      ∀ (i : Nat) (inner : StoreInner F), sinks[i]? = some (.store inner) →
        ∃ sink after, f.sinks[i]? = some sink ∧ sink.state = .store after ∧
          ∀ id, Grows (countsOf inner.counts id) (countsOf after.counts id)
            (sink.history.map (addsHistory id)).sum
            (sink.history.map (addsFailures inner.failureThreshold id)).sum := by
  have hserves := FanOut.serves_run h
  refine ⟨hserves, fun i inner hinner ↦ ?_⟩
  obtain ⟨hlength, halone⟩ := hserves.alone
  have hi : i < f.sinks.length := hlength ▸ (List.getElem?_eq_some_iff.mp hinner).1
  obtain ⟨state, hstate, hreplay⟩ := halone i f.sinks[i] (List.getElem?_eq_getElem hi)
  cases hstate.symm.trans hinner
  obtain ⟨after, hafter, -, hgrows⟩ := grows_replay call inner f.sinks[i].history
  exact ⟨f.sinks[i], after, List.getElem?_eq_getElem hi,
    (congrArg Sink.state hreplay).trans hafter, hgrows⟩

end Counts

section Example

attribute [local instance] exactNumbers

/-- A closure that always panics, and a store. -/
def brokenThenStore : List (OutcomeSink ℚ Unit) :=
  [.closure (), .store (.new (1 / 2))]

/-- An outcome comes, is handed on and then nobody is left. -/
def oneOutcome : List (FanOut.Action TaskOutcome (SinkUse ℚ Unit)) :=
  [.send ⟨7, [4, 4], false⟩, .close, .poll, .poll, .poll, .poll, .poll, .poll, .poll]

/-- The store counts the outcome behind a sink that panics at it. -/
theorem outcome_passes_a_panic :
    ∃ f : OutcomeForwarder ℚ Unit,
      FanOut.run (OutcomeSink.kind fun _ captured ↦ (captured, true)) oneOutcome
        (.start 1 brokenThenStore) = some f ∧
      ∃ sink after, f.sinks[1]? = some sink ∧ sink.offers = [⟨7, [4, 4], false⟩] ∧
        sink.state = .store after ∧ (countsOf after.counts 4).history.val = 2 := by
  have hhistory : (FanOut.run (OutcomeSink.kind fun _ captured ↦ (captured, true)) oneOutcome
      (.start 1 brokenThenStore)).map (fun f ↦ f.sinks[1]?.map Sink.history) =
        some (some [.offer ⟨7, [4, 4], false⟩]) := rfl
  obtain ⟨f, hf, hsome⟩ := Option.map_eq_some_iff.mp hhistory
  obtain ⟨sink, hsink, hops⟩ := Option.map_eq_some_iff.mp hsome
  obtain ⟨-, hstores⟩ := outcomes_reach_every_sink (fun _ captured ↦ (captured, true)) hf
  obtain ⟨sink', after, hsink', hafter, hgrows⟩ := hstores 1 (.new (1 / 2)) rfl
  cases hsink.symm.trans hsink'
  refine ⟨f, hf, sink, after, hsink, ?_, hafter, ?_⟩
  · rw [Sink.offers, hops]
    rfl
  · rw [hops] at hgrows
    exact (hgrows 4).history.trans (by decide)

end Example

/-! ## The tee -/

/-- What the receiver of a tap does. -/
inductive ReceiverUse where
  | recv
  | close
deriving DecidableEq, Repr

section Tee

variable {α : Type}

/-- A tap over an empty channel. -/
def DecisionTap.new (capacity : Nat) : DecisionTap α := ⟨.new capacity, [], []⟩

def DecisionTap.use : ReceiverUse → DecisionTap α → DecisionTap α
  | .recv, tap => match tap.channel.tryRecv with
    | some (_, channel) => { tap with channel }
    | none => tap
  | .close, tap => { tap with channel := tap.channel.close }

/-- Sink channels: the tee sends without waiting, and warns about what is dropped. -/
def teeKind (α : Type) : SinkKind α (DecisionTap α) ReceiverUse where
  deliver item tap := (tap.tryEmit item, match tap.channel.trySend item with
    | .ok _ => false
    | .error _ => true)
  serve := DecisionTap.use

/-- What has become of the items a sink channel was offered. -/
structure Thins (capacity : Nat) (sink : Sink α (DecisionTap α) ReceiverUse) : Prop where
  size : sink.state.channel.capacity = capacity
  /-- What it took is in the order of the offers, and the rest was dropped. -/
  order : sink.state.sent.Sublist sink.offers
  partition : sink.offers.Perm (sink.state.sent ++ sink.warned)
  warned : sink.warned = sink.state.dropped.map Prod.snd
  /-- What it took has been received or is in the channel. -/
  received : ∃ received, sink.state.sent = received ++ sink.state.channel.queue
  /-- With room for all offers, and a receiver that is not dropped, nothing is dropped. -/
  room : SinkOp.outside .close ∉ sink.history → sink.offers.length ≤ capacity →
    sink.warned = [] ∧ sink.state.channel.closed = false

theorem thins_start (capacity : Nat) : Thins capacity (.start (.new capacity : DecisionTap α)) where
  size := rfl
  order := List.Sublist.refl _
  partition := List.Perm.refl _
  warned := rfl
  received := ⟨[], rfl⟩
  room _ _ := ⟨rfl, rfl⟩

variable {capacity : Nat} {sink : Sink α (DecisionTap α) ReceiverUse}

/-- The channel holds no more than it was offered. -/
theorem Thins.queue_le (h : Thins capacity sink) :
    sink.state.channel.queue.length ≤ sink.offers.length := by
  obtain ⟨received, hreceived⟩ := h.received
  have hlength := h.order.length_le
  rw [hreceived, List.length_append] at hlength
  omega

/-- A channel that takes an item. -/
theorem Thins.accepted (h : Thins capacity sink) {item : α} {channel : Channel α}
    (hsend : sink.state.channel.trySend item = .ok channel) :
    Thins capacity (sink.apply (teeKind α) (.offer item)) := by
  obtain ⟨hopen, hopen', -, hsize⟩ := Channel.trySend_ok_open hsend
  have hstate : (sink.apply (teeKind α) (.offer item)).state =
      { sink.state with channel := channel, sent := sink.state.sent ++ [item] } := by
    simp only [Sink.apply, teeKind, DecisionTap.tryEmit, hsend]
  have hwarned : (sink.apply (teeKind α) (.offer item)).warned = sink.warned := by
    simp only [Sink.apply, teeKind, hsend]
    exact List.append_nil _
  obtain ⟨received, hreceived⟩ := h.received
  constructor
  case size =>
    rw [hstate]
    exact hsize.trans h.size
  case order =>
    rw [hstate, Sink.offers_offer]
    exact h.order.append (List.Sublist.refl _)
  case partition =>
    rw [hstate, hwarned, Sink.offers_offer]
    refine (h.partition.append_right [item]).trans ?_
    rw [List.append_assoc, List.append_assoc]
    exact List.perm_append_comm.append_left _
  case warned =>
    rw [hstate, hwarned]
    exact h.warned
  case received =>
    refine ⟨received, ?_⟩
    rw [hstate]
    change sink.state.sent ++ [item] = received ++ channel.queue
    rw [Channel.trySend_ok hsend, hreceived, List.append_assoc]
  case room =>
    intro hkept hoffers
    rw [Sink.history_apply, List.mem_append, not_or] at hkept
    rw [Sink.offers_offer, List.length_append] at hoffers
    rw [hwarned, hstate]
    exact ⟨(h.room hkept.1 (Nat.le_of_add_right_le hoffers)).1, hopen'⟩

/-- A channel that is full or closed. -/
theorem Thins.refused (h : Thins capacity sink) {item : α} {reason : TrySendError}
    (hsend : sink.state.channel.trySend item = .error reason) :
    Thins capacity (sink.apply (teeKind α) (.offer item)) := by
  have hstate : (sink.apply (teeKind α) (.offer item)).state =
      { sink.state with dropped := sink.state.dropped ++ [(reason, item)] } := by
    simp only [Sink.apply, teeKind, DecisionTap.tryEmit, hsend]
  have hwarned : (sink.apply (teeKind α) (.offer item)).warned = sink.warned ++ [item] := by
    simp only [Sink.apply, teeKind, hsend]
    rfl
  constructor
  case size =>
    rw [hstate]
    exact h.size
  case order =>
    rw [hstate, Sink.offers_offer]
    exact h.order.trans (List.sublist_append_left _ _)
  case partition =>
    rw [hstate, hwarned, Sink.offers_offer, ← List.append_assoc]
    exact h.partition.append_right [item]
  case warned =>
    rw [hstate, hwarned, h.warned, List.map_append]
    rfl
  case received =>
    rw [hstate]
    exact h.received
  case room =>
    intro hkept hoffers
    rw [Sink.history_apply, List.mem_append, not_or] at hkept
    rw [Sink.offers_offer, List.length_append, List.length_singleton] at hoffers
    obtain ⟨-, hopen⟩ := h.room hkept.1 (Nat.le_of_succ_le hoffers)
    -- an open channel with room does not refuse
    have hroom : sink.state.channel.queue.length < sink.state.channel.capacity := by
      rw [h.size]
      exact Nat.lt_of_le_of_lt h.queue_le hoffers
    obtain ⟨channel, hok, -⟩ := Channel.trySend_of_room hopen hroom item
    cases hok.symm.trans hsend

theorem Thins.offer (h : Thins capacity sink) (item : α) :
    Thins capacity (sink.apply (teeKind α) (.offer item)) := by
  cases hsend : sink.state.channel.trySend item with
  | ok channel => exact h.accepted hsend
  | error reason => exact h.refused hsend

/-- The receiver takes an item, or is dropped. -/
theorem Thins.use (h : Thins capacity sink) (use : ReceiverUse) :
    Thins capacity (sink.apply (teeKind α) (.outside use)) := by
  have hoffers := Sink.offers_outside (teeKind α) sink use
  obtain ⟨received, hreceived⟩ := h.received
  cases use with
  | recv =>
      cases hrecv : sink.state.channel.tryRecv with
      | none =>
          have hstate : (sink.apply (teeKind α) (.outside .recv)).state = sink.state := by
            simp only [Sink.apply, teeKind, DecisionTap.use, hrecv]
          refine ⟨?_, ?_, ?_, ?_, ?_, fun hkept hroom ↦ ?_⟩
          · rw [hstate]
            exact h.size
          · rw [hstate, hoffers]
            exact h.order
          · rw [hstate, hoffers]
            exact h.partition
          · rw [hstate]
            exact h.warned
          · rw [hstate]
            exact h.received
          · rw [hstate]
            rw [Sink.history_apply, List.mem_append, not_or] at hkept
            exact h.room hkept.1 (hoffers ▸ hroom)
      | some taken =>
          obtain ⟨item, channel⟩ := taken
          obtain ⟨hclosed, hsize⟩ := Channel.tryRecv_some_rest hrecv
          have hstate : (sink.apply (teeKind α) (.outside .recv)).state =
              { sink.state with channel := channel } := by
            simp only [Sink.apply, teeKind, DecisionTap.use, hrecv]
          refine ⟨?_, ?_, ?_, ?_, ⟨received ++ [item], ?_⟩, fun hkept hroom ↦ ?_⟩
          · rw [hstate]
            exact hsize.trans h.size
          · rw [hstate, hoffers]
            exact h.order
          · rw [hstate, hoffers]
            exact h.partition
          · rw [hstate]
            exact h.warned
          · rw [hstate]
            change sink.state.sent = received ++ [item] ++ channel.queue
            rw [hreceived, Channel.tryRecv_some hrecv, List.append_assoc]
            rfl
          · rw [hstate]
            rw [Sink.history_apply, List.mem_append, not_or] at hkept
            obtain ⟨hwarned, hopen⟩ := h.room hkept.1 (hoffers ▸ hroom)
            exact ⟨hwarned, hclosed.trans hopen⟩
  | close =>
      refine ⟨h.size, hoffers ▸ h.order, hoffers ▸ h.partition, h.warned, h.received,
        fun hkept ↦ ?_⟩
      rw [Sink.history_apply, List.mem_append, not_or] at hkept
      exact absurd (List.mem_singleton_self _) hkept.2

/-- A sink channel thins its own stream. -/
theorem thins_replay (capacity : Nat) (history : List (SinkOp α ReceiverUse)) :
    Thins capacity (Sink.replay (teeKind α) (.new capacity) history) := by
  induction history using List.reverseRecOn with
  | nil => exact thins_start capacity
  | append_singleton history op ih =>
      rw [Sink.replay_concat]
      cases op with
      | offer item => exact ih.offer item
      | outside use => exact ih.use use

end Tee

/-- The decision tee, with its tap and its sinks. -/
abbrev DecisionTee (Score : Type) :=
  FanOut (DecisionRecord Score) (DecisionTap (DecisionRecord Score)) ReceiverUse

/-- **The tee.**  Whatever the senders, the receivers, a cancel and the tee do in whatever order,
every sink is offered the records in order, and a full or closed sink drops what it is offered and
concerns no other.  A sink that has room for all of them, and keeps its receiver, gets everything
once the tap is closed and the tee has stopped. -/
theorem tee_thins_its_own_sinks {capacity : Nat} {sizes : List Nat}
    {actions : List (FanOut.Action (DecisionRecord Score) ReceiverUse)} {tee : DecisionTee Score}
    (h : FanOut.run (teeKind _) actions (.start capacity (sizes.map DecisionTap.new)) =
      some tee) :
    tee.Serves (teeKind _) (sizes.map DecisionTap.new) ∧
      ∀ (i size : Nat), sizes[i]? = some size → ∃ sink, tee.sinks[i]? = some sink ∧
        Thins size sink ∧
        (tee.stage = .stopped → tee.cancelled = false →
          SinkOp.outside .close ∉ sink.history → tee.sent.length ≤ size →
            sink.state.sent = tee.sent) := by
  have hserves := FanOut.serves_run h
  refine ⟨hserves, fun i size hsize ↦ ?_⟩
  obtain ⟨hlength, halone⟩ := hserves.alone
  rw [List.length_map] at hlength
  have hi : i < tee.sinks.length := hlength ▸ (List.getElem?_eq_some_iff.mp hsize).1
  obtain ⟨state, hstate, hreplay⟩ := halone i tee.sinks[i] (List.getElem?_eq_getElem hi)
  rw [List.getElem?_map, hsize, Option.map_some, Option.some_inj] at hstate
  subst hstate
  have hthins : Thins size tee.sinks[i] := by
    rw [hreplay]
    exact thins_replay size _
  refine ⟨tee.sinks[i], List.getElem?_eq_getElem hi, hthins,
    fun hstopped hcancelled hkept hroom ↦ ?_⟩
  have hall := hserves.everything hstopped hcancelled _ (List.getElem_mem hi)
  obtain ⟨hwarned, -⟩ := hthins.room hkept (by rwa [hall])
  have hlengths := hthins.partition.length_eq
  rw [hwarned, List.append_nil] at hlengths
  rw [← hall]
  exact hthins.order.eq_of_length hlengths.symm

/-- The receiver of the first sink is dropped; then a record comes, and then the tap is closed. -/
def oneRecord : List (FanOut.Action (DecisionRecord Unit) ReceiverUse) :=
  [.outside 0 .close, .send ⟨"coalition-0", 1, .join, true, ()⟩, .close,
    .poll, .poll, .poll, .poll, .poll, .poll, .poll]

/-- The second sink gets the record that the first one drops. -/
theorem a_closed_sink_is_alone :
    ∃ tee : DecisionTee Unit,
      FanOut.run (teeKind _) oneRecord (.start 1 ([1, 1].map DecisionTap.new)) = some tee ∧
      ∃ sink, tee.sinks[1]? = some sink ∧
        sink.state.sent = [⟨"coalition-0", 1, .join, true, ()⟩] := by
  have hrun : (FanOut.run (teeKind _) oneRecord (.start 1 ([1, 1].map DecisionTap.new))).map
      (fun tee ↦ (tee.stage, tee.cancelled, tee.sent, tee.sinks[1]?.map Sink.history)) =
        some (.stopped, false, [⟨"coalition-0", 1, .join, true, ()⟩],
          some [.offer ⟨"coalition-0", 1, .join, true, ()⟩]) := rfl
  obtain ⟨tee, htee, hfields⟩ := Option.map_eq_some_iff.mp hrun
  obtain ⟨hstopped, hfields⟩ := Prod.mk.inj hfields
  obtain ⟨hcancelled, hfields⟩ := Prod.mk.inj hfields
  obtain ⟨hsent, hhistory⟩ := Prod.mk.inj hfields
  obtain ⟨-, hsinks⟩ := tee_thins_its_own_sinks htee
  obtain ⟨sink, hsink, -, hall⟩ := hsinks 1 1 rfl
  rw [hsink, Option.map_some, Option.some_inj] at hhistory
  refine ⟨tee, htee, sink, hsink, (hall hstopped hcancelled ?_ ?_).trans hsent⟩
  · rw [hhistory]
    exact fun hmem ↦ nomatch List.mem_singleton.mp hmem
  · rw [hsent]
    exact Nat.le_refl _

end Koalisi.Subsystems
