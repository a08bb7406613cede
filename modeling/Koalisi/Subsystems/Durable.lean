import Koalisi.Core.Courier
import Koalisi.Persistence.Decisions

/-!
# Decisions on their way to storage

Three tasks forward what they drain from a decision tap.  One builds the record of the decisions
stream for each trace and sends it to the store writer, one publishes each decision on the durable
bus, and one does both for each trace, the record first.

All are a `Courier`.  The send to the writer waits for room, so a trace misses the log for two
reasons only: its record could not be encoded, or the writer was gone; each of these is warned
about (`Accounts`).  The bus is somebody else's, and what a send does to it is not known; a decision
is published only after the writer was offered its record (`tee_logs_before_it_publishes`).

The bus refuses a producer that is not one of its agents, by name and by record, and a log sink it
does not know; the producer is looked at first.
-/

namespace Koalisi.Subsystems

open Koalisi.Core Koalisi.Lib Koalisi.Lib.Fallible Koalisi.Persistence

variable {I B Score : Type}

/-! ## The durable bus -/

/-- Mirror of a decision record, as it is published. -/
structure DecisionEvent (Score : Type) where
  coalition : String
  agentId : Nat
  kind : String
  act : Bool
  score : Score
deriving DecidableEq, Repr

def DecisionEvent.fromRecord (r : DecisionRecord Score) : DecisionEvent Score where
  coalition := r.coalition
  agentId := r.agentId
  kind := r.kind.asStr
  act := r.act
  score := r.score

/-- An agent of the bus, by its name and its record. -/
structure Agent (I : Type) where
  name : String
  id : I
deriving DecidableEq, Repr

/-- The bus: its agents, and what it does when an agent sends to another.  A send says whether it
failed. -/
structure DurableDecisionBus (I B Score : Type) where
  agent : String → Option (Agent I)
  send : Agent I → String → DecisionEvent Score → B → B × Bool

/-- Errors from spawning a durable decision task. -/
inductive DurableError where
  | unknownProducer (producer : String)
  | unknownLogSink (logSink : String)
deriving DecidableEq, Repr

/-- Whether both names are names of agents; the producer is checked first. -/
def checkAgents [DecidableEq I] (bus : DurableDecisionBus I B Score) (producer : Agent I)
    (logSink : String) : Except DurableError Unit := do
  let sameAgent := (bus.agent producer.name).any fun a ↦ decide (a.id = producer.id)
  if !sameAgent then throw (.unknownProducer producer.name)
  if (bus.agent logSink).isNone then throw (.unknownLogSink logSink)

/-- The agents a task works with are agents of the bus. -/
def Known (bus : DurableDecisionBus I B Score) (producer : Agent I) (logSink : String) : Prop :=
  (∃ a, bus.agent producer.name = some a ∧ a.id = producer.id) ∧ ∃ a, bus.agent logSink = some a

/-- What the check finds. -/
theorem checkAgents_cases [DecidableEq I] (bus : DurableDecisionBus I B Score)
    (producer : Agent I) (logSink : String) :
    (checkAgents bus producer logSink = .ok () ∧ Known bus producer logSink) ∨
    (checkAgents bus producer logSink = .error (.unknownProducer producer.name) ∧
      ∀ a, bus.agent producer.name = some a → a.id ≠ producer.id) ∨
    (checkAgents bus producer logSink = .error (.unknownLogSink logSink) ∧
      (∃ a, bus.agent producer.name = some a ∧ a.id = producer.id) ∧
        bus.agent logSink = none) := by
  unfold checkAgents
  cases hproducer : (bus.agent producer.name).any fun a ↦ decide (a.id = producer.id) with
  | false =>
      refine Or.inr (Or.inl ⟨rfl, fun a ha hid ↦ ?_⟩)
      rw [ha] at hproducer
      exact absurd hid (of_decide_eq_false hproducer)
  | true =>
      have hsame : ∃ a, bus.agent producer.name = some a ∧ a.id = producer.id := by
        cases ha : bus.agent producer.name with
        | none =>
            rw [ha] at hproducer
            cases hproducer
        | some a =>
            rw [ha] at hproducer
            exact ⟨a, rfl, of_decide_eq_true hproducer⟩
      cases hsink : bus.agent logSink with
      | none => exact Or.inr (Or.inr ⟨rfl, hsame, rfl⟩)
      | some a => exact Or.inl ⟨rfl, hsame, a, hsink⟩

theorem checkAgents_ok [DecidableEq I] {bus : DurableDecisionBus I B Score}
    {producer : Agent I} {logSink : String}
    (h : checkAgents bus producer logSink = .ok ()) : Known bus producer logSink := by
  rcases checkAgents_cases bus producer logSink with ⟨-, hknown⟩ | ⟨herror, -⟩ | ⟨herror, -⟩
  · exact hknown
  · cases h.symm.trans herror
  · cases h.symm.trans herror

/-! ## Where a trace goes -/

/-- What a trace is sent to. -/
inductive Outlet (B : Type) where
  /-- The channel of the store writer, and the records that were sent on it. -/
  | log (writer : Channel (StreamId × Record)) (forwarded : List Record)
  | bus (state : B)

/-- What others do. -/
inductive OutletUse (B : Type) where
  /-- The writer takes the next record. -/
  | recv
  /-- The writer is gone. -/
  | drop
  /-- Another producer sends a record, if there is room. -/
  | produce (stream : StreamId) (record : Record)
  | change (f : B → B)

namespace Outlet

/-- Send the record that was built from a trace to the writer; it is warned about when there is no
record, or no writer. -/
def sendDecisionRecord (record : Except PersistenceError Record)
    (writer : Channel (StreamId × Record)) (forwarded : List Record) : Outlet B × Bool :=
  match record with
  | .error _ => (.log writer forwarded, true)
  | .ok record => match writer.trySend (.decisions, record) with
    | .ok writer => (.log writer (forwarded ++ [record]), false)
    | .error _ => (.log writer forwarded, true)

/-- Publish the decision. -/
def sendEvent (bus : DurableDecisionBus I B Score) (producer : Agent I) (logSink : String)
    (record : DecisionRecord Score) (state : B) : B × Bool :=
  bus.send producer logSink (.fromRecord record) state

def use : OutletUse B → Outlet B → Outlet B
  | .recv, .log writer forwarded => match writer.tryRecv with
    | some (_, writer) => .log writer forwarded
    | none => .log writer forwarded
  | .drop, .log writer forwarded => .log writer.close forwarded
  | .produce stream record, .log writer forwarded => match writer.trySend (stream, record) with
    | .ok writer => .log writer forwarded
    | .error _ => .log writer forwarded
  | .change f, .bus state => .bus (f state)
  | _, outlet => outlet

/-- Outlets of traces. -/
def kind (codec : DecisionCodec Score) (bus : DurableDecisionBus I B Score) (producer : Agent I)
    (logSink : String) : SinkKind (DecisionTrace Score) (Outlet B) (OutletUse B) where
  deliver trace outlet := match outlet with
    | .log writer forwarded =>
        sendDecisionRecord (decisionStoreRecord codec trace) writer forwarded
    | .bus state =>
        let (state, failed) := sendEvent bus producer logSink trace.record state
        (.bus state, failed)
  serve := use

/-- The bus alone. -/
def busKind (bus : DurableDecisionBus I B Score) (producer : Agent I) (logSink : String) :
    SinkKind (DecisionRecord Score) B (B → B) where
  deliver := sendEvent bus producer logSink
  serve f := f

/-- A send to the writer waits for room, if there is a record to send and a writer. -/
def ready (codec : DecisionCodec Score) (trace : DecisionTrace Score) : Outlet B → Bool
  | .log writer _ => match decisionStoreRecord codec trace with
    | .error _ => true
    | .ok _ => writer.closed || decide (writer.queue.length < writer.capacity)
  | .bus _ => true

end Outlet

/-! ## The tasks -/

/-- A task that forwards traces. -/
abbrev TraceCourier (B Score : Type) := Courier (DecisionTrace Score) (Outlet B) (OutletUse B)

/-- Traces go to the writer. -/
def spawnDecisionStoreForwarder (capacity : Nat) (writer : Channel (StreamId × Record)) :
    TraceCourier B Score := .start capacity [.log writer []]

/-- Decisions go to the bus. -/
def spawnDecisionForwarder [DecidableEq I] (bus : DurableDecisionBus I B Score) (state : B)
    (producer : Agent I) (logSink : String) (capacity : Nat) :
    Except DurableError (Courier (DecisionRecord Score) B (B → B)) := do
  checkAgents bus producer logSink
  return .start capacity [state]

/-- Traces go to the writer, and then their decisions to the bus. -/
def spawnDecisionLogBusTee [DecidableEq I] (bus : DurableDecisionBus I B Score) (state : B)
    (producer : Agent I) (logSink : String) (capacity : Nat)
    (writer : Channel (StreamId × Record)) : Except DurableError (TraceCourier B Score) := do
  checkAgents bus producer logSink
  return .start capacity [.log writer [], .bus state]

/-! ## What reaches the log -/

/-- The record of a trace, if there is one. -/
def recordOf (codec : DecisionCodec Score) (trace : DecisionTrace Score) : Option Record :=
  (decisionStoreRecord codec trace).toOption

/-- Every trace a log was offered is on the writer's channel or was warned about.  Traces without a
record are, and so are all that were offered when the writer was gone. -/
def Accounts (codec : DecisionCodec Score)
    (sink : Sink (DecisionTrace Score) (Outlet B) (OutletUse B)) : Prop :=
  ∀ writer forwarded, sink.state = .log writer forwarded →
    ∃ heard missed, sink.offers = heard ++ missed ∧
      forwarded = heard.filterMap (recordOf codec) ∧
      sink.warned = heard.filter (fun trace ↦ (recordOf codec trace).isNone) ++ missed ∧
      (writer.closed = false → missed = [])

section Accounts

variable {codec : DecisionCodec Score} {bus : DurableDecisionBus I B Score} {producer : Agent I}
variable {logSink : String} {sink : Sink (DecisionTrace Score) (Outlet B) (OutletUse B)}

variable (bus producer logSink) in
/-- What a log comes to when it is offered a trace it is ready for. -/
theorem deliver_cases {trace : DecisionTrace Score} {writer : Channel (StreamId × Record)}
    {forwarded : List Record}
    (hready : Outlet.ready codec trace (.log writer forwarded : Outlet B) = true) :
    (recordOf codec trace = none ∧
      (Outlet.kind codec bus producer logSink).deliver trace (.log writer forwarded) =
        (.log writer forwarded, true)) ∨
    (∃ record writer', recordOf codec trace = some record ∧ writer.closed = false ∧
      (Outlet.kind codec bus producer logSink).deliver trace (.log writer forwarded) =
        (.log writer' (forwarded ++ [record]), false)) ∨
    (writer.closed = true ∧
      (Outlet.kind codec bus producer logSink).deliver trace (.log writer forwarded) =
        (.log writer forwarded, true)) := by
  have hdeliver : (Outlet.kind codec bus producer logSink).deliver trace (.log writer forwarded) =
      Outlet.sendDecisionRecord (decisionStoreRecord codec trace) writer forwarded := rfl
  rw [hdeliver, recordOf]
  rw [Outlet.ready] at hready
  cases hrecord : decisionStoreRecord codec trace with
  | error e => exact Or.inl ⟨rfl, rfl⟩
  | ok record =>
      rw [hrecord] at hready
      simp only [Bool.or_eq_true, decide_eq_true_eq] at hready
      simp only [Outlet.sendDecisionRecord]
      cases hclosed : writer.closed with
      | true =>
          refine Or.inr (Or.inr ⟨rfl, ?_⟩)
          rw [Channel.trySend, if_pos hclosed]
      | false =>
          have hroom := hready.resolve_left (by rw [hclosed]; exact Bool.false_ne_true)
          obtain ⟨writer', hsend, -⟩ := Channel.trySend_of_room hclosed hroom (.decisions, record)
          refine Or.inr (Or.inl ⟨record, writer', rfl, rfl, ?_⟩)
          rw [hsend]

theorem Accounts.offer (h : Accounts codec sink) {trace : DecisionTrace Score}
    (hready : Outlet.ready codec trace sink.state = true) :
    Accounts codec (sink.apply (Outlet.kind codec bus producer logSink) (.offer trace)) := by
  intro writer forwarded hstate
  cases hbefore : sink.state with
  | bus state =>
      have hstate' : ((Outlet.kind codec bus producer logSink).deliver trace sink.state).1 =
        .log writer forwarded := hstate
      rw [hbefore] at hstate'
      cases hstate'
  | log writer₀ forwarded₀ =>
      obtain ⟨heard, missed, hoffers, hforwarded, hwarned, hopen⟩ := h writer₀ forwarded₀ hbefore
      rw [hbefore] at hready
      rw [Sink.offers_offer, hoffers]
      simp only [Sink.apply, hbefore] at hstate ⊢
      rcases deliver_cases bus producer logSink hready with
        ⟨hnone, hdeliver⟩ | ⟨record, writer', hsome, hclosed, hdeliver⟩ | ⟨hclosed, hdeliver⟩
      · rw [hdeliver] at hstate ⊢
        cases hstate
        cases hmissed : missed with
        | nil =>
            subst hmissed
            refine ⟨heard ++ [trace], [], by simp, ?_, ?_, fun _ ↦ rfl⟩
            · rw [List.filterMap_append, hforwarded]
              simp [hnone]
            · rw [hwarned]
              simp [hnone]
        | cons first rest =>
            subst hmissed
            refine ⟨heard, first :: rest ++ [trace], List.append_assoc _ _ _, hforwarded, ?_, ?_⟩
            · rw [hwarned]
              exact List.append_assoc _ _ _
            · exact fun hc ↦ absurd (hopen hc) (List.cons_ne_nil _ _)
      · rw [hdeliver] at hstate ⊢
        cases hstate
        obtain rfl := hopen hclosed
        refine ⟨heard ++ [trace], [], by simp, ?_, ?_, fun _ ↦ rfl⟩
        · rw [List.filterMap_append, hforwarded]
          simp [hsome]
        · rw [hwarned]
          simp [hsome]
      · rw [hdeliver] at hstate ⊢
        cases hstate
        refine ⟨heard, missed ++ [trace], List.append_assoc _ _ _, hforwarded, ?_, ?_⟩
        · rw [hwarned]
          exact List.append_assoc _ _ _
        · exact fun hc ↦ absurd (hc.symm.trans hclosed) Bool.false_ne_true

/-- Others send nothing of this task's, and a writer that is gone stays gone. -/
theorem use_log {op : OutletUse B} {outlet : Outlet B} {writer : Channel (StreamId × Record)}
    {forwarded : List Record} (h : outlet.use op = .log writer forwarded) :
    ∃ before, outlet = .log before forwarded ∧
      (writer.closed = false → before.closed = false) := by
  cases outlet with
  | bus state => cases op <;> cases h
  | log before already =>
      cases op with
      | recv =>
          simp only [Outlet.use] at h
          split at h
          · next hrecv =>
              cases h
              exact ⟨before, rfl, fun hc ↦ (Channel.tryRecv_some_rest hrecv).1.symm.trans hc⟩
          · cases h
            exact ⟨_, rfl, id⟩
      | drop =>
          cases h
          exact ⟨before, rfl, fun hc ↦ nomatch hc⟩
      | produce stream record =>
          simp only [Outlet.use] at h
          split at h
          · next hsend =>
              cases h
              exact ⟨before, rfl, fun _ ↦ (Channel.trySend_ok_open hsend).1⟩
          · cases h
            exact ⟨_, rfl, id⟩
      | change f =>
          cases h
          exact ⟨_, rfl, id⟩

theorem Accounts.outside (h : Accounts codec sink) (op : OutletUse B) :
    Accounts codec (sink.apply (Outlet.kind codec bus producer logSink) (.outside op)) := by
  intro writer forwarded hstate
  obtain ⟨before, hbefore, hclosed⟩ := use_log hstate
  obtain ⟨heard, missed, hoffers, hforwarded, hwarned, hopen⟩ := h before forwarded hbefore
  rw [Sink.offers_outside]
  exact ⟨heard, missed, hoffers, hforwarded, hwarned, fun hc ↦ hopen (hclosed hc)⟩

end Accounts

section Runs

variable {codec : DecisionCodec Score} {bus : DurableDecisionBus I B Score} {producer : Agent I}
variable {logSink : String} {capacity : Nat} {c : TraceCourier B Score}
variable {actions : List (Courier.Action (DecisionTrace Score) (OutletUse B))}

/-- Each trace is accounted for. -/
theorem accounts_run {outlets : List (Outlet B)}
    (hfresh : ∀ writer forwarded, Outlet.log writer forwarded ∈ outlets → forwarded = [])
    (hrun : Courier.run (Outlet.kind codec bus producer logSink) (Outlet.ready codec) actions
      (.start capacity outlets) = some c) : ∀ sink ∈ c.sinks, Accounts codec sink := by
  refine Courier.sinks_run (fun _ _ h hready ↦ h.offer hready) (fun op _ h ↦ h.outside op)
    (fun sink hsink ↦ ?_) hrun
  obtain ⟨outlet, houtlet, rfl⟩ := List.mem_map.mp hsink
  intro writer forwarded hstate
  have hlog : outlet = .log writer forwarded := hstate
  subst hlog
  exact ⟨[], [], rfl, hfresh writer forwarded houtlet, rfl, fun _ ↦ rfl⟩

def Outlet.isLog : Outlet B → Bool
  | .log _ _ => true
  | .bus _ => false

theorem isLog_sendDecisionRecord (record : Except PersistenceError Record)
    (writer : Channel (StreamId × Record)) (forwarded : List Record) :
    (Outlet.sendDecisionRecord record writer forwarded : Outlet B × Bool).1.isLog = true := by
  unfold Outlet.sendDecisionRecord
  split
  · rfl
  · split <;> rfl

theorem isLog_use (op : OutletUse B) (outlet : Outlet B) :
    (outlet.use op).isLog = outlet.isLog := by
  cases outlet with
  | bus state => cases op <;> rfl
  | log writer forwarded =>
      cases op with
      | recv =>
          simp only [Outlet.use]
          split <;> rfl
      | drop => rfl
      | produce stream record =>
          simp only [Outlet.use]
          split <;> rfl
      | change f => rfl

/-- A log stays a log, and a bus a bus. -/
theorem isLog_replay (outlet : Outlet B)
    (history : List (SinkOp (DecisionTrace Score) (OutletUse B))) :
    (Sink.replay (Outlet.kind codec bus producer logSink) outlet history).state.isLog =
      outlet.isLog := by
  induction history using List.reverseRecOn with
  | nil => rfl
  | append_singleton history op ih =>
      rw [Sink.replay_concat, ← ih]
      generalize Sink.replay (Outlet.kind codec bus producer logSink) outlet history = sink
      cases op with
      | outside op => exact isLog_use op sink.state
      | offer trace =>
          change ((Outlet.kind codec bus producer logSink).deliver trace sink.state).1.isLog = _
          cases sink.state with
          | log writer forwarded => exact isLog_sendDecisionRecord _ writer forwarded
          | bus state => rfl

/-- What has been logged: the writer was sent the records of the traces the log had heard of before
it was gone, in this order; it warned about those that have none, and about all it missed. -/
def Logged (codec : DecisionCodec Score)
    (sink : Sink (DecisionTrace Score) (Outlet B) (OutletUse B)) : Prop :=
  ∃ writer heard missed,
    sink.state = .log writer (heard.filterMap (recordOf codec)) ∧
    sink.offers = heard ++ missed ∧
    sink.warned = heard.filter (fun trace ↦ (recordOf codec trace).isNone) ++ missed ∧
    (writer.closed = false → missed = [])

/-- An outlet that was a log has logged what it was offered. -/
theorem logged_run {outlets : List (Outlet B)} {i : Nat} {writer₀ : Channel (StreamId × Record)}
    {sink : Sink (DecisionTrace Score) (Outlet B) (OutletUse B)}
    (hfresh : ∀ writer forwarded, Outlet.log writer forwarded ∈ outlets → forwarded = [])
    (hrun : Courier.run (Outlet.kind codec bus producer logSink) (Outlet.ready codec) actions
      (.start capacity outlets) = some c)
    (houtlet : outlets[i]? = some (.log writer₀ [])) (hsink : c.sinks[i]? = some sink) :
    Logged codec sink := by
  have haccounts := accounts_run hfresh hrun sink (List.mem_of_getElem? hsink)
  obtain ⟨outlet, houtlet', hreplay⟩ := (Courier.carries_run hrun).alone.2 i sink hsink
  obtain rfl := Option.some.inj (houtlet.symm.trans houtlet')
  have hlog : sink.state.isLog = true := by
    rw [hreplay]
    exact isLog_replay _ sink.history
  cases hstate : sink.state with
  | bus state =>
      rw [hstate] at hlog
      cases hlog
  | log writer forwarded =>
      obtain ⟨heard, missed, hoffers, rfl, hwarned, hopen⟩ := haccounts writer forwarded hstate
      exact ⟨writer, heard, missed, hstate, hoffers, hwarned, hopen⟩

/-- A store forwarder logs what it drains. -/
theorem store_forwarder_logs {writer₀ : Channel (StreamId × Record)}
    (hrun : Courier.run (Outlet.kind codec bus producer logSink) (Outlet.ready codec) actions
      (spawnDecisionStoreForwarder capacity writer₀) = some c) :
    Courier.Carries (Outlet.kind codec bus producer logSink) (Outlet.ready codec)
        [.log writer₀ []] c ∧
      ∃ log, c.sinks = [log] ∧ Logged codec log := by
  have hcarries := Courier.carries_run hrun
  obtain ⟨log, hsinks⟩ := List.length_eq_one_iff.mp hcarries.alone.1
  refine ⟨hcarries, log, hsinks, logged_run (i := 0) (fun writer forwarded hmem ↦ ?_) hrun rfl ?_⟩
  · cases List.mem_singleton.mp hmem
    rfl
  · rw [hsinks]
    rfl

end Runs

section Bus

variable [DecidableEq I] {codec : DecisionCodec Score} {bus : DurableDecisionBus I B Score}
variable {producer : Agent I} {logSink : String} {state : B} {capacity : Nat}

/-- A forwarder publishes the decisions in the order they were tapped in. -/
theorem decision_forwarder_carries {ready : DecisionRecord Score → B → Bool}
    {c₀ c : Courier (DecisionRecord Score) B (B → B)}
    {actions : List (Courier.Action (DecisionRecord Score) (B → B))}
    (hspawn : spawnDecisionForwarder bus state producer logSink capacity = .ok c₀)
    (hrun : Courier.run (Outlet.busKind bus producer logSink) ready actions c₀ = some c) :
    Known bus producer logSink ∧
      Courier.Carries (Outlet.busKind bus producer logSink) ready [state] c := by
  obtain ⟨⟨⟩, hcheck, hstart⟩ := except_bind_eq_ok.mp hspawn
  obtain rfl := Except.ok.inj hstart
  exact ⟨checkAgents_ok hcheck, Courier.carries_run hrun⟩

/-- **A tee logs before it publishes.** -/
theorem tee_logs_before_it_publishes {writer₀ : Channel (StreamId × Record)}
    {c₀ c : TraceCourier B Score}
    {actions : List (Courier.Action (DecisionTrace Score) (OutletUse B))}
    (hspawn : spawnDecisionLogBusTee bus state producer logSink capacity writer₀ = .ok c₀)
    (hrun : Courier.run (Outlet.kind codec bus producer logSink) (Outlet.ready codec) actions c₀ =
      some c) :
    Known bus producer logSink ∧
      Courier.Carries (Outlet.kind codec bus producer logSink) (Outlet.ready codec)
        [.log writer₀ [], .bus state] c ∧
      ∃ log published, c.sinks = [log, published] ∧ Logged codec log ∧
        published.offers <+: log.offers ∧
          published = Sink.replay (Outlet.kind codec bus producer logSink) (.bus state)
            published.history := by
  obtain ⟨⟨⟩, hcheck, hstart⟩ := except_bind_eq_ok.mp hspawn
  obtain rfl := Except.ok.inj hstart
  have hcarries := Courier.carries_run hrun
  refine ⟨checkAgents_ok hcheck, hcarries, ?_⟩
  obtain ⟨log, published, hsinks⟩ := List.length_eq_two.mp hcarries.alone.1
  have hlog : c.sinks[0]? = some log := by
    rw [hsinks]
    rfl
  have hpublished : c.sinks[1]? = some published := by
    rw [hsinks]
    rfl
  refine ⟨log, published, hsinks, logged_run (fun writer forwarded hmem ↦ ?_) hrun rfl hlog,
    hcarries.behind 0 1 log published (Nat.zero_le 1) hlog hpublished, ?_⟩
  · rcases List.mem_cons.mp hmem with heq | hrest
    · cases heq
      rfl
    · cases List.mem_singleton.mp hrest
  · obtain ⟨outlet, houtlet, hreplay⟩ := hcarries.alone.2 1 published hpublished
    obtain rfl := Option.some.inj houtlet
    exact hreplay

/-- A bus that keeps what it is sent. -/
def keepingBus : DurableDecisionBus Nat (List (DecisionEvent Nat)) Nat where
  agent name := if name = "log" then some ⟨name, 0⟩ else
    if name = "producer" then some ⟨name, 1⟩ else none
  send _ _ event kept := (kept ++ [event], false)

/-- One trace is sent, drained, and handed to both. -/
def oneTrace : List (Courier.Action (DecisionTrace Nat) (OutletUse (List (DecisionEvent Nat)))) :=
  [.send ⟨⟨"coalition-0", 1, .join, true, 7⟩, 0, 3⟩, .poll, .poll, .poll, .poll, .poll]

/-- The decision is in the log when it is on the bus. -/
theorem published_is_logged :
    ∃ c, Courier.run (Outlet.kind (fun _ ↦ .ok []) keepingBus ⟨"producer", 1⟩ "log")
        (Outlet.ready fun _ ↦ .ok []) oneTrace
        (.start 1 [.log (.new 1) [], .bus []]) = some c ∧
      ∃ log published, c.sinks = [log, published] ∧ log.offers ≠ [] ∧
        published.offers <+: log.offers := by
  have hrun : (Courier.run (Outlet.kind (fun _ ↦ .ok []) keepingBus ⟨"producer", 1⟩ "log")
      (Outlet.ready fun _ ↦ .ok []) oneTrace
      (.start 1 [.log (.new 1) [], .bus []])).map (fun c ↦ c.sinks.map Sink.offers) =
        some [[⟨⟨"coalition-0", 1, .join, true, 7⟩, 0, 3⟩],
          [⟨⟨"coalition-0", 1, .join, true, 7⟩, 0, 3⟩]] := rfl
  obtain ⟨c, hc, hoffers⟩ := Option.map_eq_some_iff.mp hrun
  have hspawn : spawnDecisionLogBusTee keepingBus [] ⟨"producer", 1⟩ "log" 1 (.new 1) =
      .ok (.start 1 [.log (.new 1) [], .bus []]) := rfl
  obtain ⟨-, -, log, published, hsinks, -, hprefix, -⟩ :=
    tee_logs_before_it_publishes hspawn hc
  rw [hsinks] at hoffers
  refine ⟨c, hc, log, published, hsinks, fun hnil ↦ ?_, hprefix⟩
  rw [List.map_cons, hnil] at hoffers
  cases (List.cons.inj hoffers).1

end Bus

end Koalisi.Subsystems
