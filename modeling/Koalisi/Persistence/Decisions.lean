import Mathlib.Data.List.Chain
import Koalisi.Persistence.Pipeline
import Koalisi.Subsystems.CoalitionActor

/-!
# Where decisions are placed

A decision trace carries the topology position its decision was taken at, and the record
that is persisted for it names a record of the topology stream as its parent.  The two
streams are written by different tasks, and nothing but the position ties them together.

A `Deployment` is a service with what is behind the event tap of its graph.  The tap was
installed before anything was recorded; the graph is set up through its manager, which
then moves into the service and has no other holder.  As long as nothing is dropped, the
position of a decision is the number of events recorded before it, by log and by clock,
and the record at the position before that is the record of the last of them
(`decisions_are_placed`).
-/

namespace Koalisi.Persistence

open Koalisi.Lib Koalisi.Lib.Fallible
open Koalisi.Lib.Framing (Bytes)
open Koalisi.Topology Koalisi.Subsystems

variable {G V HE E VW HW Score : Type}

/-! ## Records of decisions -/

/-- Wire-schema version of the decisions stream's payload. -/
def wireDecisionSchemaVersion : UInt16 := 1

/-- Mirror of a decision record. -/
structure WireDecision (Score : Type) where
  coalition : String
  agentId : Nat
  kind : String
  act : Bool
  score : Score
deriving DecidableEq, Repr

/-- Project a decision record onto its mirror. -/
def WireDecision.fromRecord (record : DecisionRecord Score) : WireDecision Score where
  coalition := record.coalition
  agentId := record.agentId
  kind := record.kind.asStr
  act := record.act
  score := record.score

/-- The external encoder: `ciborium` at a wire decision. -/
abbrev DecisionCodec (Score : Type) := WireDecision Score → Except String Bytes

/-- `checked_sub`. -/
def checkedSub (a b : Nat) : Option Nat := if b ≤ a then some (a - b) else none

/-- Build the record of the decisions stream for a trace. -/
def decisionStoreRecord (codec : DecisionCodec Score) (trace : DecisionTrace Score) :
    Except PersistenceError Record := do
  let buf ← (codec (.fromRecord trace.record)).mapError .encode
  return {
    timestamp := trace.timestamp
    schemaVersion := wireDecisionSchemaVersion
    parents := ((checkedSub trace.eventLogLen.val 1).map fun seq ↦
      { stream := .topology, seq := seq }).toList
    payload := .plain buf }

/-- The parents of a decision depend on its position alone. -/
theorem parents_of_decisionStoreRecord {codec : DecisionCodec Score}
    {trace : DecisionTrace Score} {record : Record}
    (h : decisionStoreRecord codec trace = .ok record) :
    record.parents = if trace.eventLogLen.val = 0 then []
      else [{ stream := .topology, seq := trace.eventLogLen.val - 1 }] := by
  obtain ⟨buf, -, hr⟩ := except_bind_eq_ok.mp h
  rw [← Except.ok.inj hr]
  change Option.toList (Option.map _ (checkedSub _ 1)) = _
  rw [checkedSub]
  by_cases h0 : trace.eventLogLen.val = 0
  · rw [if_neg (by omega), if_pos h0]
    rfl
  · rw [if_pos (by omega), if_neg h0]
    rfl

/-! ## A service with its taps -/

/-- A service, and the pipe behind the event tap of its graph. -/
structure Deployment (G V HE E Score : Type) where
  /-- The manager has moved into the service. -/
  spawned : Bool
  service : CoalitionService G V HE E Score
  pipe : Pipe V HE

namespace Deployment

/-- What can happen. -/
inductive Action (G V HE E Score : Type) where
  /-- The graph is set up through the manager. -/
  | setup (op : Koalisi.Topology.Op V HE E)
  | spawn
  /-- Something happens to the service and its clients. -/
  | serve (action : Service.Action (Owned G V HE Score) CoalitionCommand (Circumstances V Score))
  /-- A trace is received from the trace tap. -/
  | recvTrace
  | move (m : Move)

section Machine

variable [Hypergraph G V HE E] [Zero Score]

/-- A graph with a tap, its manager, and tasks behind the tap that have just been started. -/
def deploy (graph : G) (ctx : DecisionContext) (capacity traceCapacity writerCapacity : Nat)
    (producers : Bool) (store : FileEventStore) : Deployment G V HE E Score where
  spawned := false
  service := .spawn {
    manager := fresh graph (some (.new capacity))
    ctx := ctx
    tap := none
    traceTap := some ⟨.new traceCapacity, [], []⟩ }
  pipe := .spawn store writerCapacity producers

/-- The manager of the graph. -/
def manager (d : Deployment G V HE E Score) : TemporalHypergraph G V HE := d.service.world.manager

/-- The events recorded so far. -/
def log (d : Deployment G V HE E Score) : List (TemporalEvent V HE) := d.manager.events.events

/-- The traces put on the trace tap so far. -/
def traces (d : Deployment G V HE E Score) : List (DecisionTrace Score) :=
  (d.service.world.traceTap.map DecisionTap.sent).getD []

/-- The service has a new state, in which more may have been sent to the event tap. -/
def serving (d : Deployment G V HE E Score) (service : CoalitionService G V HE E Score) :
    Option (Deployment G V HE E Score) := do
  let before ← d.manager.eventTap
  let after ← service.world.manager.eventTap
  return { d with service := service, pipe := d.pipe.tapped before.channel after.channel }

/-- Nobody but the service changes what it owns. -/
def fromService :
    Service.Action (Owned G V HE Score) CoalitionCommand (Circumstances V Score) → Bool
  | .outside _ => false
  | _ => true

/-- One action, if it is possible; the log must have room for what it may record. -/
def step (prims : Primitives) (codec : PayloadCodec VW HW) (proj : Projections V HE VW HW)
    (d : Deployment G V HE E Score) : Action G V HE E Score → Option (Deployment G V HE E Score)
  | .setup op =>
      if d.spawned then none
      else do
        let manager ← Koalisi.Topology.step d.manager op
        d.serving { d.service with world := { d.service.world with manager := manager } }
  | .spawn => some { d with spawned := true }
  | .serve action =>
      if d.spawned && fromService action && d.manager.events.len < vecMax then do
        let service ← d.service.step catchUnwind action
        d.serving service
      else none
  | .recvTrace => do
      let tap ← d.service.world.traceTap
      let (_, channel) ← tap.channel.tryRecv
      let world := { d.service.world with traceTap := some { tap with channel := channel } }
      return { d with service := { d.service with world := world } }
  | .move m => do
      let tap ← d.manager.eventTap
      let (channel, pipe) ← d.pipe.move prims codec proj d.service.task.isStopped tap.channel m
      let manager := { d.manager with eventTap := some { tap with channel := channel } }
      let world := { d.service.world with manager := manager }
      return { d with service := { d.service with world := world }, pipe := pipe }

/-- Actions one after the other. -/
def run (prims : Primitives) (codec : PayloadCodec VW HW) (proj : Projections V HE VW HW)
    (actions : List (Action G V HE E Score)) (d : Deployment G V HE E Score) :
    Option (Deployment G V HE E Score) :=
  actions.foldlM (step prims codec proj) d

/-- No record of the topology stream comes from elsewhere. -/
def Action.fromTapOnly : Action G V HE E Score → Bool
  | .move m => !m.producesTopology
  | _ => true

/-- Nothing has been dropped, by the taps or behind them. -/
structure Lossless (d : Deployment G V HE E Score) : Prop where
  eventTap : ∀ tap, d.manager.eventTap = some tap → tap.warnings = []
  traceTap : ∀ tap, d.service.world.traceTap = some tap → tap.dropped = []
  pipe : d.pipe.Lossless

/-- No event is on its way to the store. -/
structure Settled (d : Deployment G V HE E Score) : Prop where
  tap : ∀ tap, d.manager.eventTap = some tap → tap.channel.queue = []
  forwarder : d.pipe.forwarder.inHand = []
  writerRx : d.pipe.writerRx.queue = []
  writer : d.pipe.writer.inHand = []

end Machine

/-! ## Positions -/

/-- The position after a decision. -/
def positionAfter (trace : DecisionTrace Score) : Nat :=
  trace.eventLogLen.val + if trace.record.act then 1 else 0

/-- The trace tap has dropped nothing. -/
def Dropless (d : Deployment G V HE E Score) : Prop :=
  ∀ tap, d.service.world.traceTap = some tap → tap.dropped = []

/-- The clock counts the events, and each trace carries the position of its decision. -/
structure Positions (d : Deployment G V HE E Score) : Prop where
  room : d.log.length ≤ vecMax
  clock : d.manager.clock.current.val = d.log.length
  tapped : d.service.world.traceTap.isSome
  unspawned : d.spawned = false → d.traces = []
  timestamps : ∀ trace ∈ d.traces, trace.timestamp = trace.eventLogLen
  chain : d.Dropless →
    d.traces.IsChain fun trace next ↦ next.eventLogLen.val = positionAfter trace
  last : d.Dropless → ∀ trace ∈ d.traces.getLast?, d.log.length = positionAfter trace

section Positions

variable {prims : Primitives} {codec : PayloadCodec VW HW} {proj : Projections V HE VW HW}
variable {d d' : Deployment G V HE E Score} {action : Action G V HE E Score}

theorem serving_cases {service : CoalitionService G V HE E Score}
    (h : d.serving service = some d') :
    ∃ before after, d.manager.eventTap = some before ∧ service.world.manager.eventTap = some after ∧
      d' = { d with service := service, pipe := d.pipe.tapped before.channel after.channel } := by
  obtain ⟨before, hbefore, h⟩ := Option.bind_eq_some_iff.mp h
  obtain ⟨after, hafter, h⟩ := Option.bind_eq_some_iff.mp h
  cases h
  exact ⟨before, after, hbefore, hafter, rfl⟩

variable [Hypergraph G V HE E]

/-- What an action does to the log, the clock and the traces. -/
inductive Moved (d d' : Deployment G V HE E Score) : Prop
  /-- Nothing is recorded and nothing is decided. -/
  | still (log : d'.log = d.log) (clock : d'.manager.clock = d.manager.clock)
      (tapped : d.service.world.traceTap.isSome → d'.service.world.traceTap.isSome)
      (traces : d'.traces = d.traces) (dropless : d'.Dropless → d.Dropless)
  /-- An event is recorded before the service is spawned. -/
  | setup (event : TemporalEvent V HE) (spawned : d.spawned = false)
      (room : d.manager.events.len < vecMax)
      (records : Records d.manager event d'.manager)
      (traceTap : d'.service.world.traceTap = d.service.world.traceTap)
  /-- The service decides. -/
  | decides (trace : DecisionTrace Score) (spawned : d'.spawned = true)
      (room : d.manager.events.len < vecMax)
      (emits : Emits d.service.world d'.service.world trace)

/-- A failed operation leaves log and clock alone. -/
theorem log_of_failed {value value' : TemporalHypergraph G V HE} (h : Failed value value') :
    value'.events = value.events ∧ value'.clock = value.clock ∧
      value'.eventTap = value.eventTap := by
  rcases h with rfl | rfl <;> exact ⟨rfl, rfl, rfl⟩

/-- A tap takes an item or drops it. -/
theorem tryEmit_cases {α : Type} (tap : DecisionTap α) (item : α) :
    ((tap.tryEmit item).sent = tap.sent ++ [item] ∧ (tap.tryEmit item).dropped = tap.dropped) ∨
      ((tap.tryEmit item).sent = tap.sent ∧ (tap.tryEmit item).dropped ≠ []) := by
  unfold DecisionTap.tryEmit
  split
  · exact Or.inl ⟨rfl, rfl⟩
  · exact Or.inr ⟨rfl, List.append_ne_nil_of_right_ne_nil _ (List.cons_ne_nil _ _)⟩

/-- What a decision adds to the traces. -/
theorem traces_of_emits {trace : DecisionTrace Score}
    (h : Emits d.service.world d'.service.world trace) :
    d'.traces = d.traces ∨ d'.traces = d.traces ++ [trace] := by
  rw [traces, traces, h.traceTap]
  cases d.service.world.traceTap with
  | none => exact Or.inl rfl
  | some tap =>
      rcases tryEmit_cases tap trace with ⟨hsent, -⟩ | ⟨hsent, -⟩
      · exact Or.inr hsent
      · exact Or.inl hsent

/-- What it adds if nothing is dropped. -/
theorem traces_of_dropless {trace : DecisionTrace Score}
    (h : Emits d.service.world d'.service.world trace)
    (htap : d.service.world.traceTap.isSome) (hd : d'.Dropless) :
    d.Dropless ∧ d'.traces = d.traces ++ [trace] := by
  obtain ⟨tap, htap⟩ := Option.isSome_iff_exists.mp htap
  have htap' : d'.service.world.traceTap = some (tap.tryEmit trace) := by
    rw [h.traceTap, htap]
    rfl
  have hdropped := hd _ htap'
  rcases tryEmit_cases tap trace with ⟨hsent, hsame⟩ | ⟨-, hne⟩
  · refine ⟨fun t ht ↦ ?_, ?_⟩
    · cases htap.symm.trans ht
      exact hsame.symm.trans hdropped
    · rw [traces, traces, htap, htap']
      exact hsent
  · exact absurd hdropped hne

/-- A tick behind a log that has room. -/
theorem clock_of_records {value value' : TemporalHypergraph G V HE} {event : TemporalEvent V HE}
    (h : Records value event value') (hclock : value.clock.current.val = value.events.events.length)
    (hroom : value.events.len < vecMax) :
    value'.clock.current.val = value'.events.events.length := by
  have hlen : value.events.events.length < 2 ^ 63 - 1 := hroom
  rw [h.clock, Clock.tick_val (by omega), h.events, EventLog.events_append, List.length_append,
    hclock]
  rfl

/-- The log after a decision is as long as its position says. -/
theorem length_of_placed {value value' : TemporalHypergraph G V HE} {decision : Decision Score}
    (h : CoalitionManager.Placed value value' decision) :
    value'.events.events.length = value.events.events.length + if decision.act then 1 else 0 := by
  rcases h with ⟨hact, rfl⟩ | ⟨hact, event, hrecords⟩
  · rw [hact]
    rfl
  · rw [hact, hrecords.events, EventLog.events_append, List.length_append]
    rfl

/-- The position of a decision is the length of the log before it. -/
theorem Positions.eventLogLen (hd : d.Positions) {trace : DecisionTrace Score}
    (h : Emits d.service.world d'.service.world trace) :
    trace.eventLogLen.val = d.log.length ∧ trace.timestamp = trace.eventLogLen := by
  have hroom : d.log.length ≤ 2 ^ 63 - 1 := hd.room
  have hval : trace.eventLogLen.val = d.log.length := by
    rw [h.eventLogLen]
    exact Nat.mod_eq_of_lt (by change d.log.length < _; omega)
  refine ⟨hval, Fin.ext ?_⟩
  rw [hval, h.timestamp]
  exact hd.clock

variable [LawfulHypergraph G]

theorem moved_of_setup {op : Koalisi.Topology.Op V HE E} (hspawned : d.spawned = false)
    {manager : TemporalHypergraph G V HE} (hop : Koalisi.Topology.step d.manager op = some manager)
    (h : d.serving { d.service with world := { d.service.world with manager := manager } } =
      some d') : Moved d d' := by
  obtain ⟨before, after, -, -, rfl⟩ := serving_cases h
  unfold Koalisi.Topology.step at hop
  split at hop
  · rename_i hroom
    cases hop
    rcases Op.apply_cases op d.manager with hfailed | ⟨event, hrecords, -⟩
    · obtain ⟨hevents, hclock, -⟩ := log_of_failed hfailed
      exact .still (congrArg EventLog.events hevents) hclock id rfl id
    · exact .setup event hspawned hroom hrecords rfl
  · cases hop

variable [Zero Score]

theorem moved_of_serve
    {a : Service.Action (Owned G V HE Score) CoalitionCommand (Circumstances V Score)}
    {service : CoalitionService G V HE E Score} (hspawned : d.spawned = true)
    (hfrom : fromService a = true) (hroom : d.manager.events.len < vecMax)
    (hstep : d.service.step catchUnwind a = some service) (h : d.serving service = some d') :
    Moved d d' := by
  obtain ⟨before, after, -, -, rfl⟩ := serving_cases h
  rcases (Service.moves_of_step hstep).world with hw | ⟨w, rfl⟩ | ⟨o, reply, cmd, -, -, hw⟩
  · refine .still (congrArg (fun own ↦ own.manager.events.events) hw)
      (congrArg (fun own ↦ own.manager.clock) hw)
      (fun ht ↦ (congrArg (fun own ↦ own.traceTap.isSome) hw).trans ht)
      (congrArg (fun own ↦ (own.traceTap.map DecisionTap.sent).getD []) hw) fun hd tap htap ↦ ?_
    exact hd tap ((congrArg Owned.traceTap hw).trans htap)
  · cases hfrom
  · rcases catchUnwind_cases (E := E) o cmd d.service.world with ⟨trace, hemits⟩ | hunmoved
    · rw [← hw] at hemits
      exact .decides trace hspawned hroom hemits
    · rw [← hw] at hunmoved
      obtain ⟨hevents, hclock, -⟩ := log_of_failed hunmoved.manager
      refine .still (congrArg EventLog.events hevents) hclock
        (fun ht ↦ (congrArg Option.isSome hunmoved.traceTap).trans ht)
        (congrArg (fun tap ↦ (tap.map DecisionTap.sent).getD []) hunmoved.traceTap)
        fun hd tap htap ↦ ?_
      exact hd tap (hunmoved.traceTap.trans htap)

theorem moved_of_step (h : d.step prims codec proj action = some d') :
    Moved d d' ∧ (d'.spawned = false → d.spawned = false) := by
  cases action with
  | setup op =>
      simp only [step] at h
      split at h
      · cases h
      · rename_i hspawned
        rw [Bool.not_eq_true] at hspawned
        obtain ⟨manager, hop, h⟩ := Option.bind_eq_some_iff.mp h
        exact ⟨moved_of_setup hspawned hop h, fun _ ↦ hspawned⟩
  | spawn =>
      cases h
      exact ⟨.still rfl rfl id rfl id, fun hs ↦ nomatch hs⟩
  | serve a =>
      simp only [step] at h
      split at h
      · rename_i hguard
        obtain ⟨service, hstep, h⟩ := Option.bind_eq_some_iff.mp h
        simp only [Bool.and_eq_true, decide_eq_true_eq] at hguard
        obtain ⟨⟨hspawned, hfrom⟩, hroom⟩ := hguard
        refine ⟨moved_of_serve hspawned hfrom hroom hstep h, fun hs ↦ ?_⟩
        obtain ⟨_, _, -, -, rfl⟩ := serving_cases h
        exact hs
      · cases h
  | recvTrace =>
      obtain ⟨tap, htap, h⟩ := Option.bind_eq_some_iff.mp h
      obtain ⟨⟨_, channel⟩, hrecv, h⟩ := Option.bind_eq_some_iff.mp h
      cases h
      refine ⟨.still rfl rfl (fun _ ↦ rfl) ?_ fun hd tap' htap' ↦ ?_, id⟩
      · rw [traces, traces, htap]
        rfl
      · cases htap.symm.trans htap'
        exact hd { tap with channel := channel } rfl
  | move m =>
      obtain ⟨tap, htap, h⟩ := Option.bind_eq_some_iff.mp h
      obtain ⟨⟨channel, pipe⟩, hmove, h⟩ := Option.bind_eq_some_iff.mp h
      cases h
      exact ⟨.still rfl rfl id rfl id, id⟩

/-- One action keeps the positions. -/
theorem Positions.step (hd : d.Positions) (h : d.step prims codec proj action = some d') :
    d'.Positions := by
  obtain ⟨hmoved, hspawned⟩ := moved_of_step h
  cases hmoved with
  | still hlog hclock htapped htraces hdropless =>
      refine ⟨hlog ▸ hd.room, ?_, htapped hd.tapped, fun hs ↦ htraces ▸ hd.unspawned (hspawned hs),
        htraces ▸ hd.timestamps, fun hd' ↦ htraces ▸ hd.chain (hdropless hd'), fun hd' ↦ ?_⟩
      · rw [hclock, hlog]
        exact hd.clock
      · rw [htraces, hlog]
        exact hd.last (hdropless hd')
  | setup event hs hroom hrecords htap =>
      have htraces : d'.traces = [] := by
        rw [traces, htap]
        exact hd.unspawned hs
      refine ⟨?_, clock_of_records hrecords hd.clock hroom, htap ▸ hd.tapped, fun _ ↦ htraces,
        ?_, fun _ ↦ ?_, fun _ ↦ ?_⟩
      · rw [log, hrecords.events, EventLog.events_append, List.length_append]
        exact hroom
      · rw [htraces]
        exact fun _ ht ↦ nomatch ht
      · rw [htraces]
        exact .nil
      · rw [htraces]
        exact fun _ ht ↦ nomatch ht
  | decides trace hs hroom hemits =>
      obtain ⟨hposition, htimestamp⟩ := hd.eventLogLen hemits
      have hlength : d'.log.length = positionAfter trace := by
        rw [positionAfter, hposition]
        exact length_of_placed hemits.placed
      refine ⟨?_, ?_, ?_, fun hs' ↦ ?_, ?_, fun hd' ↦ ?_, fun hd' ↦ ?_⟩
      · have hlt : d.log.length < vecMax := hroom
        rw [hlength, positionAfter, hposition]
        split <;> omega
      · rcases hemits.placed with ⟨-, hsame⟩ | ⟨-, event, hrecords⟩
        · rw [log, manager, hsame]
          exact hd.clock
        · exact clock_of_records hrecords hd.clock hroom
      · rw [hemits.traceTap, Option.isSome_map]
        exact hd.tapped
      · exact nomatch hs'.symm.trans hs
      · intro t ht
        rcases traces_of_emits hemits with hsame | happend
        · exact hd.timestamps t (hsame ▸ ht)
        · rcases List.mem_append.mp (happend ▸ ht) with ht | ht
          · exact hd.timestamps t ht
          · rw [List.mem_singleton.mp ht]
            exact htimestamp
      · obtain ⟨hd₀, htraces⟩ := traces_of_dropless hemits hd.tapped hd'
        rw [htraces, List.isChain_append]
        refine ⟨hd.chain hd₀, .singleton _, ?_⟩
        rintro t ht _ ⟨⟩
        rw [hposition]
        exact hd.last hd₀ t ht
      · obtain ⟨hd₀, htraces⟩ := traces_of_dropless hemits hd.tapped hd'
        rw [htraces, List.getLast?_concat]
        rintro _ ⟨⟩
        exact hlength

end Positions

/-! ## What the store holds -/

/-- As long as nothing is dropped, the pipe conveys the log. -/
def Conveyed (prims : Primitives) (codec : PayloadCodec VW HW) (proj : Projections V HE VW HW)
    (d : Deployment G V HE E Score) : Prop :=
  (∀ tap, d.manager.eventTap = some tap → tap.warnings = []) → d.pipe.Lossless →
    ∃ tap, d.manager.eventTap = some tap ∧
      d.pipe.Conveys prims codec proj tap.channel d.log

section Conveyed

variable {prims : Primitives} {codec : PayloadCodec VW HW} {proj : Projections V HE VW HW}
variable {d d' : Deployment G V HE E Score} {action : Action G V HE E Score}

theorem Conveyed.serving (h : d.Conveyed prims codec proj)
    {service : CoalitionService G V HE E Score} (hserving : d.serving service = some d')
    (hlog : (service.world.manager.events = d.manager.events ∧
        service.world.manager.eventTap = d.manager.eventTap) ∨
      ∃ event, service.world.manager.events = d.manager.events.append event ∧
        service.world.manager.eventTap = tapEvent d.manager.eventTap event) :
    d'.Conveyed prims codec proj := by
  obtain ⟨before, after, hbefore, hafter, rfl⟩ := serving_cases hserving
  intro hwarn hlossless
  have hconv : before.warnings = [] →
      d.pipe.Conveys prims codec proj before.channel d.log := fun hw ↦ by
    obtain ⟨tap, htap, hconv⟩ := h (fun t ht ↦ by
      cases hbefore.symm.trans ht
      exact hw) hlossless
    cases hbefore.symm.trans htap
    exact hconv
  refine ⟨after, hafter, Pipe.Conveys.mirrors hconv ?_ (hwarn after hafter)⟩
  · rcases hlog with ⟨hevents, htap⟩ | ⟨event, hevents, htap⟩
    · refine Or.inl ⟨congrArg EventLog.events hevents, ?_⟩
      exact Option.some.inj (hafter.symm.trans (htap.trans hbefore))
    · refine Or.inr ⟨event, congrArg EventLog.events hevents, ?_⟩
      rw [← hbefore, ← hafter, htap]

/-- What is read of the topology stream at the position of an event is the record of the event,
if anything is. -/
theorem Conveyed.readFrom (hp : prims.RoundTrips) (h : d.Conveyed prims codec proj)
    (hlossless : d.Lossless) {n : Nat} {event : TemporalEvent V HE} (hn : d.log[n]? = some event) :
    ∃ batch, d.pipe.store.readFrom prims .topology n 1 = .ok batch ∧
      (∀ stored ∈ batch, stored.seq = n ∧ topologyRecord codec proj event = .ok stored.record) ∧
      (d.Settled → batch.length = 1) := by
  obtain ⟨tap, htap, ledger, forwarded, hcarries⟩ := h hlossless.eventTap hlossless.pipe
  have hread := ledger.readFrom_eq hp hcarries.holds .topology n 1
  rw [List.take_one, List.head?_drop] at hread
  obtain ⟨hlength, hrecord⟩ := List.forall₂_iff_get.mp hcarries.carried
  refine ⟨_, hread, fun stored hstored ↦ ?_, fun hsettled ↦ ?_⟩
  · obtain ⟨hseq, hr⟩ := ledger.getElem?_stored (Option.mem_toList.mp hstored)
    refine ⟨hseq, ?_⟩
    obtain ⟨hlt, hr⟩ := List.getElem?_eq_some_iff.mp hr
    have hlt' : n < forwarded.length := by
      rw [hlength, List.length_append]
      omega
    have hevent : forwarded[n] = event := by
      rw [← hcarries.taken, List.getElem?_append_left hlt', List.getElem?_eq_getElem hlt'] at hn
      exact Option.some.inj hn
    have hget := hrecord n hlt' (hlength ▸ hlt')
    rw [List.get_eq_getElem, List.get_eq_getElem, hevent, List.getElem_append_left hlt, hr] at hget
    exact hget
  · have hlt : n < ledger.stored.length := by
      have htaken := hcarries.taken
      rw [hsettled.forwarder, hsettled.tap tap htap, List.append_nil, List.append_nil] at htaken
      rw [hsettled.writer, hsettled.writerRx] at hlength
      have hlt' : n < forwarded.length := htaken ▸ (List.getElem?_eq_some_iff.mp hn).1
      rw [hlength, List.length_append, Ledger.records, List.length_map] at hlt'
      rw [Ledger.length_stored]
      exact hlt'
    rw [List.getElem?_eq_getElem hlt]
    rfl

variable [Hypergraph G V HE E]

/-- A failed operation, or one that records. -/
theorem logged {value value' : TemporalHypergraph G V HE}
    (h : Failed value value' ∨ ∃ event, Records value event value') :
    (value'.events = value.events ∧ value'.eventTap = value.eventTap) ∨
      ∃ event, value'.events = value.events.append event ∧
        value'.eventTap = tapEvent value.eventTap event := by
  rcases h with h | ⟨event, h⟩
  · obtain ⟨hevents, -, htap⟩ := log_of_failed h
    exact Or.inl ⟨hevents, htap⟩
  · exact Or.inr ⟨event, h.events, h.eventTap⟩

variable [LawfulHypergraph G] [Zero Score]

/-- One action keeps the log conveyed. -/
theorem Conveyed.step (h : d.Conveyed prims codec proj) (hfrom : action.fromTapOnly = true)
    (hstep : d.step prims codec proj action = some d') : d'.Conveyed prims codec proj := by
  cases action with
  | setup op =>
      simp only [Deployment.step] at hstep
      split at hstep
      · cases hstep
      · obtain ⟨manager, hop, hstep⟩ := Option.bind_eq_some_iff.mp hstep
        refine h.serving hstep (logged ?_)
        unfold Koalisi.Topology.step at hop
        split at hop
        · cases hop
          exact (Op.apply_cases op d.manager).imp_right fun ⟨event, hr, _⟩ ↦ ⟨event, hr⟩
        · cases hop
  | spawn =>
      cases hstep
      exact h
  | serve a =>
      simp only [Deployment.step] at hstep
      split at hstep
      · rename_i hguard
        obtain ⟨service, hserve, hstep⟩ := Option.bind_eq_some_iff.mp hstep
        simp only [Bool.and_eq_true, decide_eq_true_eq] at hguard
        refine h.serving hstep (logged ?_)
        rcases (Service.moves_of_step hserve).world with hw | ⟨w, rfl⟩ | ⟨o, reply, cmd, -, -, hw⟩
        · exact Or.inl (Or.inl (congrArg Owned.manager hw))
        · exact nomatch hguard.1.2
        · rw [hw]
          rcases catchUnwind_cases (E := E) o cmd d.service.world with ⟨trace, hemits⟩ | hunmoved
          · rcases hemits.placed with ⟨-, hsame⟩ | ⟨-, hrecords⟩
            · exact Or.inl (Or.inl hsame)
            · exact Or.inr hrecords
          · exact Or.inl hunmoved.manager
      · cases hstep
  | recvTrace =>
      obtain ⟨tap, htap, hstep⟩ := Option.bind_eq_some_iff.mp hstep
      obtain ⟨⟨_, channel⟩, hrecv, hstep⟩ := Option.bind_eq_some_iff.mp hstep
      cases hstep
      exact h
  | move m =>
      obtain ⟨tap, htap, hstep⟩ := Option.bind_eq_some_iff.mp hstep
      obtain ⟨⟨channel, pipe⟩, hmove, hstep⟩ := Option.bind_eq_some_iff.mp hstep
      cases hstep
      intro hwarn hlossless
      obtain ⟨ws, hws⟩ := Pipe.warnings_move hmove
      have hnone : tap.warnings = [] := hwarn { tap with channel := channel } rfl
      obtain ⟨tap', htap', hconv⟩ := h (fun t ht ↦ by
        cases htap.symm.trans ht
        exact hnone) (hlossless.of_append hws)
      cases htap.symm.trans htap'
      have hm : (!m.producesTopology) = true := hfrom
      rw [Bool.not_eq_true'] at hm
      exact ⟨_, rfl, hconv.move hm hmove hlossless⟩

/-- Events stay in the log. -/
theorem log_prefix_step (hstep : d.step prims codec proj action = some d') :
    d.log <+: d'.log := by
  obtain ⟨hmoved, -⟩ := moved_of_step hstep
  cases hmoved with
  | still hlog => exact hlog ▸ List.prefix_refl _
  | setup event _ _ hrecords =>
      rw [log, log, hrecords.events, EventLog.events_append]
      exact List.prefix_append _ _
  | decides trace _ _ hemits =>
      rw [log, log, manager, manager]
      rcases hemits.placed with ⟨-, hsame⟩ | ⟨-, event, hrecords⟩
      · rw [hsame]
      · rw [hrecords.events, EventLog.events_append]
        exact List.prefix_append _ _

end Conveyed

/-! ## Runs -/

section Runs

variable {prims : Primitives} {codec : PayloadCodec VW HW} {proj : Projections V HE VW HW}
variable {d d' : Deployment G V HE E Score} {actions : List (Action G V HE E Score)}

theorem positions_deploy (graph : G) (ctx : DecisionContext)
    (capacity traceCapacity writerCapacity : Nat) (producers : Bool) (store : FileEventStore) :
    (deploy graph ctx capacity traceCapacity writerCapacity producers store :
      Deployment G V HE E Score).Positions where
  room := Nat.zero_le _
  clock := rfl
  tapped := rfl
  unspawned _ := rfl
  timestamps _ h := nomatch h
  chain _ := .nil
  last _ _ h := nomatch h

theorem conveyed_deploy {store : FileEventStore} (h : Holds prims (store.volume .topology) [])
    (graph : G) (ctx : DecisionContext) (capacity traceCapacity writerCapacity : Nat)
    (producers : Bool) :
    (deploy graph ctx capacity traceCapacity writerCapacity producers store :
      Deployment G V HE E Score).Conveyed prims codec proj := fun _ _ ↦
  ⟨_, rfl, Pipe.conveys_spawn h capacity writerCapacity producers⟩

/-- Positions never go back. -/
theorem Positions.nondecreasing (hd : d.Positions) (hdropless : d.Dropless) :
    (d.traces.map fun trace ↦ trace.eventLogLen.val).Pairwise (· ≤ ·) := by
  refine List.IsChain.pairwise ((List.isChain_map _).mpr ((hd.chain hdropless).imp ?_))
  intro trace next h
  rw [h, positionAfter]
  exact Nat.le_add_right _ _

variable [Hypergraph G V HE E] [LawfulHypergraph G] [Zero Score]

theorem Positions.run (hd : d.Positions) (h : d.run prims codec proj actions = some d') :
    d'.Positions :=
  foldlM_inv (fun _ _ _ _ hd hstep ↦ hd.step hstep) hd h

theorem log_prefix_run (h : d.run prims codec proj actions = some d') : d.log <+: d'.log :=
  foldlM_inv (P := fun t : Deployment G V HE E Score ↦ d.log <+: t.log)
    (fun _ _ _ _ ht hstep ↦ ht.trans (log_prefix_step hstep)) (List.prefix_refl _) h

theorem Conveyed.run (hd : d.Conveyed prims codec proj)
    (hfrom : ∀ action ∈ actions, action.fromTapOnly = true)
    (h : d.run prims codec proj actions = some d') : d'.Conveyed prims codec proj :=
  foldlM_inv (fun _ ha _ _ hd hstep ↦ hd.step (hfrom _ ha) hstep) hd h

/-- A trace that is put on the tap carries the position of its decision. -/
theorem Positions.emitted (hd : d.Positions) {action : Action G V HE E Score}
    (h : d.step prims codec proj action = some d') {trace : DecisionTrace Score}
    (htraces : d'.traces = d.traces ++ [trace]) : trace.eventLogLen.val = d.log.length := by
  have hne : d'.traces ≠ d.traces := fun he ↦ by
    have hlength := congrArg List.length (he.symm.trans htraces)
    rw [List.length_append, List.length_singleton] at hlength
    omega
  obtain ⟨hmoved, -⟩ := moved_of_step h
  cases hmoved with
  | still _ _ _ hsame => exact absurd hsame hne
  | setup event _ _ _ htap =>
      refine absurd ?_ hne
      rw [traces, traces, htap]
  | decides trace' _ _ hemits =>
      rcases traces_of_emits hemits with hsame | happend
      · exact absurd hsame hne
      · rw [htraces] at happend
        have htrace := List.cons.inj (List.append_cancel_left happend)
        rw [htrace.1]
        exact (hd.eventLogLen hemits).1

/-- **Decisions are placed.**  A tap is installed on a graph whose log is empty, the graph is
set up through its manager, and the manager moves into a service that nobody else shares the
graph with.  Clients, the service and the tasks behind the tap take turns in any way.  As long
as nothing is dropped, each trace carries the length of the log as its position and as its
timestamp, the next position is one ahead after a decision that acted and the same after one
that did not, and the parent of the record made of a trace is the record of the last event
before the decision, if there is one. -/
theorem decisions_are_placed (hp : prims.RoundTrips) (dcodec : DecisionCodec Score)
    (store : FileEventStore) (hstore : FileEventStore.Reachable prims store)
    (hhead : store.head .topology = none) (graph : G) (ctx : DecisionContext)
    (capacity traceCapacity writerCapacity : Nat) (producers : Bool)
    (actions : List (Action G V HE E Score))
    (hfrom : ∀ action ∈ actions, action.fromTapOnly = true) (fin : Deployment G V HE E Score)
    (hrun : (deploy graph ctx capacity traceCapacity writerCapacity producers store).run prims
      codec proj actions = some fin)
    (hlossless : fin.Lossless) :
    (fin.traces.map fun trace ↦ trace.eventLogLen.val).Pairwise (· ≤ ·) ∧
    (∀ trace ∈ fin.traces, trace.timestamp = trace.eventLogLen) ∧
    (fin.traces.IsChain fun trace next ↦
      next.eventLogLen.val = trace.eventLogLen.val + if trace.record.act then 1 else 0) ∧
    ∀ before action after mid next trace, actions = before ++ action :: after →
      (deploy graph ctx capacity traceCapacity writerCapacity producers store).run prims
        codec proj before = some mid →
      mid.step prims codec proj action = some next → next.traces = mid.traces ++ [trace] →
      trace.eventLogLen.val = mid.log.length ∧
      ∀ record, decisionStoreRecord dcodec trace = .ok record →
        (mid.log = [] → record.parents = []) ∧
        ∀ event, mid.log.getLast? = some event →
          record.parents = [{ stream := .topology, seq := mid.log.length - 1 }] ∧
          ∃ batch, fin.pipe.store.readFrom prims .topology (mid.log.length - 1) 1 = .ok batch ∧
            (∀ stored ∈ batch, stored.seq = mid.log.length - 1 ∧
              topologyRecord codec proj event = .ok stored.record) ∧
            (fin.Settled → batch.length = 1) := by
  obtain ⟨frames, hholds⟩ := hstore.holds .topology
  have hstart : (deploy graph ctx capacity traceCapacity writerCapacity producers store :
      Deployment G V HE E Score).Positions := positions_deploy ..
  have hfin := hstart.run hrun
  have hconveyed := (conveyed_deploy (Pipeline.holds_nil_of_head hholds hhead) graph ctx capacity
    traceCapacity writerCapacity producers).run hfrom hrun
  refine ⟨hfin.nondecreasing hlossless.traceTap, hfin.timestamps, hfin.chain hlossless.traceTap, ?_⟩
  rintro before action after mid next trace rfl hmid hnext htraces
  have hposition := (hstart.run hmid).emitted hnext htraces
  refine ⟨hposition, fun record hrecord ↦ ⟨fun hnil ↦ ?_, fun event hevent ↦ ?_⟩⟩
  · rw [parents_of_decisionStoreRecord hrecord, hposition, hnil, List.length_nil, if_pos rfl]
  · have hpos : mid.log.length ≠ 0 := fun h0 ↦ by
      rw [List.length_eq_zero_iff.mp h0] at hevent
      exact nomatch hevent
    refine ⟨by rw [parents_of_decisionStoreRecord hrecord, hposition, if_neg hpos], ?_⟩
    -- the log grows behind the event only
    have hprefix : mid.log <+: fin.log := by
      have hrest : mid.run prims codec proj (action :: after) = some fin := by
        rw [run, List.foldlM_append] at hrun
        obtain ⟨mid', hmid', hrest⟩ := Option.bind_eq_some_iff.mp hrun
        cases hmid'.symm.trans hmid
        exact hrest
      exact log_prefix_run hrest
    obtain ⟨rest, hrest⟩ := hprefix
    refine hconveyed.readFrom hp hlossless ?_
    rw [← hrest, List.getElem?_append_left (by omega), ← List.getLast?_eq_getElem?]
    exact hevent

end Runs

end Deployment

/-! ## A leave behind an arrival -/

namespace Sample

/-- CBOR of the arrival of a second member. -/
def joinedPayload : Bytes :=
  [161, 120, 24, 72, 121, 112, 101, 114, 101, 100, 103, 101, 86, 101, 114, 116, 105, 99, 101, 115,
    85, 112, 100, 97, 116, 101, 100, 164, 105, 116, 105, 109, 101, 115, 116, 97, 109, 112, 0, 101,
    105, 110, 100, 101, 120, 0, 108, 111, 108, 100, 95, 118, 101, 114, 116, 105, 99, 101, 115, 129,
    0, 108, 110, 101, 119, 95, 118, 101, 114, 116, 105, 99, 101, 115, 130, 0, 1]

def joinedDigest : Digest where
  bytes := [146, 60, 35, 92, 118, 149, 60, 47, 100, 203, 177, 200, 155, 175, 137, 191, 223, 154, 95,
    249, 7, 17, 219, 78, 74, 172, 48, 248, 62, 6, 106, 241]
  size := rfl

def joinedFrame : Bytes := frame 0 0 [246] joinedPayload

/-- CBOR and SHA-256 on the frame of the arrival. -/
def joinedCodec : Primitives := .ofTable
  [(.ofRecord (record 0 joinedPayload) 0 none, joinedFrame)] [(joinedFrame, joinedDigest)]
  zeroDigest

/-- CBOR on the payload of the arrival. -/
def joinedPayloadCodec : PayloadCodec Nat Nat where
  intoWriter := tableWrite [(.hyperedgeVerticesUpdated 0 0 [0] [0, 1], joinedPayload)]
  fromReader := tableRead [(.hyperedgeVerticesUpdated 0 0 [0] [0, 1], joinedPayload)]

/-- CBOR of a decision to join. -/
def joinBytes : Bytes :=
  [165, 105, 99, 111, 97, 108, 105, 116, 105, 111, 110, 107, 99, 111, 97, 108, 105, 116, 105, 111,
    110, 45, 48, 104, 97, 103, 101, 110, 116, 95, 105, 100, 1, 100, 107, 105, 110, 100, 100, 106,
    111, 105, 110, 99, 97, 99, 116, 245, 101, 115, 99, 111, 114, 101, 249, 60, 0]

/-- CBOR of a decision not to leave. -/
def stayBytes : Bytes :=
  [165, 105, 99, 111, 97, 108, 105, 116, 105, 111, 110, 107, 99, 111, 97, 108, 105, 116, 105, 111,
    110, 45, 48, 104, 97, 103, 101, 110, 116, 95, 105, 100, 5, 100, 107, 105, 110, 100, 101, 108,
    101, 97, 118, 101, 99, 97, 99, 116, 244, 101, 115, 99, 111, 114, 101, 249, 0, 0]

/-- CBOR on the two decisions. -/
def decisionCodec : DecisionCodec Nat := tableWrite
  [(⟨"coalition-0", 1, "join", true, 1⟩, joinBytes),
    (⟨"coalition-0", 5, "leave", false, 0⟩, stayBytes)]

/-- A store on a new disk, for the arrival. -/
def joinedStore : FileEventStore :=
  match FileEventStore.openOn joinedCodec ⟨1⟩ fun _ ↦ [] with
  | .ok store _ => store
  | .error _ disk => ⟨disk, ⟨1⟩, fun _ ↦ .blank⟩

theorem joinedRoundTrips : joinedCodec.RoundTrips :=
  Primitives.ofTable_roundTrips (by decide +kernel) _ _

theorem reachable_joinedStore : FileEventStore.Reachable joinedCodec joinedStore := by
  obtain ⟨opened, hopen, -⟩ := exists_openOn_empty joinedCodec ⟨1⟩
  have hstore : joinedStore = opened := by rw [joinedStore, hopen]
  rw [hstore]
  refine .opened (fun _ ↦ ?_) hopen
  exact List.nodup_nil

/-- A coalition of one of two agents, whose manager moves into a service. -/
def started : Deployment (MapGraph Nat Nat) Nat Nat MapGraphError Nat :=
  .deploy CoalitionService.pair.manager.graph ⟨0⟩ 2 2 1 false joinedStore

/-- The second agent joins, and a leave of an agent that is no member is taken. -/
def untilStay : List (Deployment.Action (MapGraph Nat Nat) Nat Nat MapGraphError Nat) :=
  .spawn :: [.request (.join 1 0), .poll CoalitionService.welcoming,
    .poll CoalitionService.welcoming, .poll CoalitionService.welcoming,
    .poll CoalitionService.welcoming, .request (.leave 5 0), .poll CoalitionService.welcoming,
    .poll CoalitionService.welcoming].map .serve

/-- The work on the leave. -/
def decides : Deployment.Action (MapGraph Nat Nat) Nat Nat MapGraphError Nat :=
  .serve (.poll CoalitionService.welcoming)

/-- The arrival is forwarded and appended. -/
def persisting : List (Deployment.Action (MapGraph Nat Nat) Nat Nat MapGraphError Nat) :=
  [.pollForwarder, .forwardOne, .pollWriter, .offloadAppend {}].map .move

/-- The trace of the leave. -/
def stay : DecisionTrace Nat where
  record := ⟨"coalition-0", 5, .leave, false, 0⟩
  eventLogLen := 1
  timestamp := 1

end Sample

namespace Deployment

/-- A leave that changes nothing is placed behind the arrival of a member, and what its
record names as its parent is the record of the arrival. -/
theorem a_leave_names_the_arrival_before_it :
    ∃ (fin : Deployment (MapGraph Nat Nat) Nat Nat MapGraphError Nat) (record : Record),
      Sample.started.run Sample.joinedCodec Sample.joinedPayloadCodec (.identity Nat Nat)
        (Sample.untilStay ++ Sample.decides :: Sample.persisting) = some fin ∧
      fin.log = [.hyperedgeVerticesUpdated 0 0 [0] [0, 1]] ∧
      fin.traces.getLast? = some Sample.stay ∧
      decisionStoreRecord Sample.decisionCodec Sample.stay = .ok record ∧
      record.parents = [{ stream := .topology, seq := 0 }] ∧
      ∃ stored, fin.pipe.store.readFrom Sample.joinedCodec .topology 0 1 = .ok [stored] ∧
        topologyRecord Sample.joinedPayloadCodec (.identity Nat Nat)
          (.hyperedgeVerticesUpdated 0 0 [0] [0, 1]) = .ok stored.record := by
  have hmid : (Sample.started.run Sample.joinedCodec Sample.joinedPayloadCodec (.identity Nat Nat)
      Sample.untilStay).map log = some [.hyperedgeVerticesUpdated 0 0 [0] [0, 1]] := by
    decide +kernel
  have hnext : ((Sample.started.run Sample.joinedCodec Sample.joinedPayloadCodec
      (.identity Nat Nat) Sample.untilStay).bind fun mid ↦
        (mid.step Sample.joinedCodec Sample.joinedPayloadCodec (.identity Nat Nat)
          Sample.decides).map fun next ↦ decide (next.traces = mid.traces ++ [Sample.stay])) =
        some true := by
    decide +kernel
  have hfin : (Sample.started.run Sample.joinedCodec Sample.joinedPayloadCodec (.identity Nat Nat)
      (Sample.untilStay ++ Sample.decides :: Sample.persisting)).map (fun fin ↦
        ((fin.log, fin.traces.getLast?),
          fin.manager.eventTap.map fun tap ↦ tap.warnings.length + tap.channel.queue.length,
          fin.service.world.traceTap.map fun tap ↦ tap.dropped.length,
          fin.pipe.forwarder.inHand.length + fin.pipe.writer.inHand.length +
            fin.pipe.writerRx.queue.length + fin.pipe.warnings.length)) =
      some (([.hyperedgeVerticesUpdated 0 0 [0] [0, 1]], some Sample.stay), some 0, some 0, 0) := by
    decide +kernel
  have hrecord : (decisionStoreRecord Sample.decisionCodec Sample.stay).isOk := by decide +kernel
  obtain ⟨mid, hmid, hmidlog⟩ := Option.map_eq_some_iff.mp hmid
  rw [hmid, Option.bind_some] at hnext
  obtain ⟨next, hnext, htraces⟩ := Option.map_eq_some_iff.mp hnext
  obtain ⟨fin, hfin, hcheck⟩ := Option.map_eq_some_iff.mp hfin
  simp only [Prod.mk.injEq, Nat.add_eq_zero_iff, List.length_eq_zero_iff] at hcheck
  obtain ⟨⟨hlog, hlast⟩, hevents, htrace, ⟨⟨hforwarder, hwriter⟩, hrx⟩, hwarnings⟩ := hcheck
  obtain ⟨tap, htap, hclean⟩ := Option.map_eq_some_iff.mp hevents
  rw [Nat.add_eq_zero_iff, List.length_eq_zero_iff, List.length_eq_zero_iff] at hclean
  obtain ⟨traceTap, htraceTap, hkept⟩ := Option.map_eq_some_iff.mp htrace
  obtain ⟨record, hrecord⟩ : ∃ record, decisionStoreRecord Sample.decisionCodec Sample.stay =
      .ok record := by
    cases h : decisionStoreRecord Sample.decisionCodec Sample.stay with
    | ok record => exact ⟨record, rfl⟩
    | error e => rw [h] at hrecord; cases hrecord
  obtain ⟨-, -, -, hplaced⟩ := decisions_are_placed Sample.joinedRoundTrips Sample.decisionCodec
    Sample.joinedStore Sample.reachable_joinedStore (by decide +kernel)
    CoalitionService.pair.manager.graph ⟨0⟩ 2 2 1 false
    (Sample.untilStay ++ Sample.decides :: Sample.persisting) (by decide) fin hfin
    ⟨fun t ht ↦ Option.some.inj (htap.symm.trans ht) ▸ hclean.1,
      fun t ht ↦ Option.some.inj (htraceTap.symm.trans ht) ▸ List.length_eq_zero_iff.mp hkept,
      fun w hw ↦ by rw [hwarnings] at hw; cases hw⟩
  obtain ⟨-, hplaced⟩ := hplaced Sample.untilStay Sample.decides Sample.persisting mid next
    Sample.stay rfl hmid hnext (of_decide_eq_true htraces)
  obtain ⟨hparents, batch, hread, hstored, hone⟩ := (hplaced record hrecord).2
    (.hyperedgeVerticesUpdated 0 0 [0] [0, 1]) (by rw [hmidlog]; rfl)
  obtain ⟨stored, rfl⟩ := List.length_eq_one_iff.mp (hone
    ⟨fun t ht ↦ Option.some.inj (htap.symm.trans ht) ▸ hclean.2, hforwarder, hrx, hwriter⟩)
  rw [hmidlog] at hparents hread
  exact ⟨fin, record, hfin, hlog, hlast, hrecord, hparents, stored, hread,
    (hstored stored (List.mem_singleton_self stored)).2⟩

end Deployment

end Koalisi.Persistence
