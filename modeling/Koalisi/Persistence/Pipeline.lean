import Koalisi.Lib.Consumer
import Koalisi.Persistence.Failures
import Koalisi.Persistence.Replay
import Koalisi.Topology.Clones

/-!
# From the event tap to the store

The topology forwarder reads the tap of a graph, projects each event onto a record
of the topology stream, and sends the record to the channel of the store writer,
waiting while that is full.  The store writer takes the records off its channel,
those of other producers too, and makes one attempt to append each.  Both are
cancelled by a token of their own, and end when nobody can send to them any more.

What cannot be delivered is dropped with a warning.  A pipe that dropped no record
of the topology stream conveys what was sent to the tap: the records in the store,
those in the writer's channel, and the events in the tap follow each other without
a gap (`Conveys`).
-/

namespace Koalisi.Persistence

open Koalisi.Lib Koalisi.Lib.Fallible
open Koalisi.Topology

variable {V HE VW HW : Type}

/-- Why a record was dropped. -/
inductive Warning where
  | payloadEncodeFailed (error : String)
  | writerChannelClosed (stream : StreamId)
  | storeAppendFailed (stream : StreamId) (error : PersistenceError)
deriving DecidableEq

/-- The warning is about a record of the topology stream. -/
def Warning.losesTopology : Warning → Bool
  | .payloadEncodeFailed _ => true
  | .writerChannelClosed stream => stream = .topology
  | .storeAppendFailed stream _ => stream = .topology

/-- The tasks between the tap and the store. -/
structure Pipe (V HE : Type) where
  forwarder : Consumer (TemporalEvent V HE)
  /-- The forwarder's token is cancelled. -/
  forwarderCancelled : Bool
  /-- The channel of the store writer. -/
  writerRx : Channel (StreamId × Record)
  /-- Producers other than the forwarder hold a sender of the writer's channel. -/
  producers : Bool
  writer : Consumer (StreamId × Record)
  /-- The writer's token is cancelled. -/
  writerCancelled : Bool
  store : FileEventStore
  warnings : List Warning

/-- What the tasks do, and what is done to them. -/
inductive Move where
  | cancelForwarder
  | cancelWriter
  /-- The forwarder looks for the next event. -/
  | pollForwarder
  /-- The forwarder is done with the event in hand. -/
  | forwardOne
  /-- The receiver of the tap is dropped. -/
  | dropTapRx
  /-- Another producer sends a record. -/
  | produce (stream : StreamId) (record : Record)
  | dropProducers
  /-- The writer looks for the next record. -/
  | pollWriter
  /-- The writer is done with the record in hand. -/
  | offloadAppend (faults : Faults)
  /-- The receiver of the writer's channel is dropped. -/
  | dropWriterRx
deriving DecidableEq

/-- Another producer sends a record of the topology stream. -/
def Move.producesTopology : Move → Bool
  | .produce stream _ => stream = .topology
  | _ => false

namespace Pipe

/-- Tasks that have just been started. -/
def spawn (store : FileEventStore) (capacity : Nat) (producers : Bool) : Pipe V HE where
  forwarder := .new
  forwarderCancelled := false
  writerRx := .new capacity
  producers := producers
  writer := .new
  writerCancelled := false
  store := store
  warnings := []

def warn (pipe : Pipe V HE) (warning : Warning) : Pipe V HE :=
  { pipe with warnings := pipe.warnings ++ [warning] }

/-- Send a record to the writer's channel, which is not possible while it is full. -/
def send (pipe : Pipe V HE) (stream : StreamId) (record : Record) : Option (Pipe V HE) :=
  match pipe.writerRx.trySend (stream, record) with
  | .ok rx => some { pipe with writerRx := rx, writer := pipe.writer.arrive 1 }
  | .error .full => none
  | .error .closed => some (pipe.warn (.writerChannelClosed stream))

/-- Project one event and send its record to the writer's channel. -/
def forwardOne (codec : PayloadCodec VW HW) (proj : Projections V HE VW HW) (pipe : Pipe V HE)
    (event : TemporalEvent V HE) : Option (Pipe V HE) :=
  match topologyRecord codec proj event with
  | .error e => some (pipe.warn (.payloadEncodeFailed e))
  | .ok record => pipe.send .topology record

/-- Attempt one append. -/
def offloadAppend (prims : Primitives) (faults : Faults) (pipe : Pipe V HE) (stream : StreamId)
    (record : Record) : Pipe V HE :=
  match pipe.store.append prims faults stream record with
  | .ok _ store => { pipe with store := store }
  | .error e store => { pipe with store := store }.warn (.storeAppendFailed stream e)

/-- One move, if it is possible; `tapGone` says that nobody can send to the tap any more. -/
def move (prims : Primitives) (codec : PayloadCodec VW HW) (proj : Projections V HE VW HW)
    (tapGone : Bool) (tap : Channel (TemporalEvent V HE)) (pipe : Pipe V HE) :
    Move → Option (Channel (TemporalEvent V HE) × Pipe V HE)
  | .cancelForwarder => some (tap, { pipe with forwarderCancelled := true })
  | .cancelWriter => some (tap, { pipe with writerCancelled := true })
  | .pollForwarder =>
      (pipe.forwarder.poll pipe.forwarderCancelled tapGone tap).map fun (forwarder, tap) ↦
        (tap, { pipe with forwarder := forwarder })
  | .forwardOne =>
      match pipe.forwarder.phase with
      | .handling event _ => (pipe.forwardOne codec proj event).map fun pipe ↦
          (tap, { pipe with forwarder := pipe.forwarder.finish })
      | _ => none
  | .dropTapRx => if pipe.forwarder.phase.isStopped then some (tap.close, pipe) else none
  | .produce stream record =>
      if pipe.producers then (pipe.send stream record).map fun pipe ↦ (tap, pipe) else none
  | .dropProducers => some (tap, { pipe with producers := false })
  | .pollWriter =>
      (pipe.writer.poll pipe.writerCancelled
          (pipe.forwarder.phase.isStopped && !pipe.producers) pipe.writerRx).map
        fun (writer, rx) ↦ (tap, { pipe with writer := writer, writerRx := rx })
  | .offloadAppend faults =>
      match pipe.writer.phase with
      | .handling (stream, record) _ =>
          let pipe := pipe.offloadAppend prims faults stream record
          some (tap, { pipe with writer := pipe.writer.finish })
      | _ => none
  | .dropWriterRx =>
      if pipe.writer.phase.isStopped then
        some (tap, { pipe with writerRx := pipe.writerRx.close })
      else none

/-- Events have been sent to the tap. -/
def tapped (pipe : Pipe V HE) (before after : Channel (TemporalEvent V HE)) : Pipe V HE :=
  { pipe with forwarder := pipe.forwarder.arrive (after.queue.length - before.queue.length) }

/-- Every record of the topology stream has been delivered so far. -/
def Lossless (pipe : Pipe V HE) : Prop := ∀ w ∈ pipe.warnings, w.losesTopology = false

/-! ## Warnings stay -/

variable {prims : Primitives} {codec : PayloadCodec VW HW} {proj : Projections V HE VW HW}
variable {pipe pipe' : Pipe V HE} {tap tap' : Channel (TemporalEvent V HE)} {tapGone : Bool}
variable {stream : StreamId} {record : Record}

/-- What a send can do. -/
theorem send_cases (h : pipe.send stream record = some pipe') :
    (∃ rx, rx.queue = pipe.writerRx.queue ++ [(stream, record)] ∧
      pipe' = { pipe with writerRx := rx, writer := pipe.writer.arrive 1 }) ∨
    pipe' = pipe.warn (.writerChannelClosed stream) := by
  unfold send at h
  split at h
  · rename_i rx hrx
    cases h
    exact Or.inl ⟨rx, Channel.trySend_ok hrx, rfl⟩
  · cases h
  · cases h
    exact Or.inr rfl

/-- What forwarding an event can do. -/
theorem forwardOne_cases {event : TemporalEvent V HE}
    (h : pipe.forwardOne codec proj event = some pipe') :
    (∃ e, topologyRecord codec proj event = .error e ∧
      pipe' = pipe.warn (.payloadEncodeFailed e)) ∨
    ∃ record, topologyRecord codec proj event = .ok record ∧
      pipe.send .topology record = some pipe' := by
  unfold forwardOne at h
  split at h
  · rename_i e he
    cases h
    exact Or.inl ⟨e, he, rfl⟩
  · rename_i record hr
    exact Or.inr ⟨record, hr, h⟩

/-- What an attempt to append can do. -/
theorem offloadAppend_cases (prims : Primitives) (faults : Faults) (pipe : Pipe V HE)
    (stream : StreamId) (record : Record) :
    (∃ head store, pipe.store.append prims faults stream record = .ok head store ∧
      pipe.offloadAppend prims faults stream record = { pipe with store := store }) ∨
    ∃ e store, pipe.store.append prims faults stream record = .error e store ∧
      pipe.offloadAppend prims faults stream record =
        { pipe with store := store }.warn (.storeAppendFailed stream e) := by
  unfold offloadAppend
  split
  · rename_i head store h
    exact Or.inl ⟨head, store, h, rfl⟩
  · rename_i e store h
    exact Or.inr ⟨e, store, h, rfl⟩

theorem warnings_send (h : pipe.send stream record = some pipe') :
    ∃ ws, pipe'.warnings = pipe.warnings ++ ws := by
  rcases send_cases h with ⟨rx, -, rfl⟩ | rfl
  · exact ⟨[], (List.append_nil _).symm⟩
  · exact ⟨_, rfl⟩

/-- No warning is taken back. -/
theorem warnings_move {m : Move}
    (h : pipe.move prims codec proj tapGone tap m = some (tap', pipe')) :
    ∃ ws, pipe'.warnings = pipe.warnings ++ ws := by
  have hkeep : ∀ p : Pipe V HE, p.warnings = pipe.warnings →
      ∃ ws, p.warnings = pipe.warnings ++ ws :=
    fun p hp ↦ ⟨[], hp.trans (List.append_nil _).symm⟩
  cases m with
  | cancelForwarder | cancelWriter | dropProducers =>
      cases h
      exact hkeep _ rfl
  | pollForwarder | pollWriter =>
      obtain ⟨_, -, h⟩ := Option.map_eq_some_iff.mp h
      cases h
      exact hkeep _ rfl
  | dropTapRx | dropWriterRx =>
      simp only [move] at h
      split at h <;> cases h
      exact hkeep _ rfl
  | forwardOne =>
      simp only [move] at h
      split at h
      · obtain ⟨p, hp, h⟩ := Option.map_eq_some_iff.mp h
        cases h
        rcases forwardOne_cases hp with ⟨e, -, rfl⟩ | ⟨record, -, hsend⟩
        · exact ⟨_, rfl⟩
        · obtain ⟨ws, hws⟩ := warnings_send hsend
          exact ⟨ws, hws⟩
      · cases h
  | produce stream record =>
      simp only [move] at h
      split at h
      · obtain ⟨p, hp, h⟩ := Option.map_eq_some_iff.mp h
        cases h
        exact warnings_send hp
      · cases h
  | offloadAppend faults =>
      simp only [move] at h
      split at h
      · rename_i stream record _ _
        cases h
        rcases offloadAppend_cases prims faults pipe stream record with
          ⟨head, store, -, heq⟩ | ⟨e, store, -, heq⟩
        · rw [heq]
          exact hkeep _ rfl
        · rw [heq]
          exact ⟨_, rfl⟩
      · cases h

theorem Lossless.of_append {ws : List Warning} (h : pipe'.Lossless)
    (hw : pipe'.warnings = pipe.warnings ++ ws) : pipe.Lossless :=
  fun w hmem ↦ h w (hw ▸ List.mem_append_left ws hmem)

/-- A warning about the topology stream is a loss. -/
theorem not_lossless_warn {w : Warning} (hw : w.losesTopology = true)
    (h : (pipe.warn w).Lossless) : False := by
  have := h w (List.mem_append_right _ (List.mem_singleton_self w))
  rw [hw] at this
  cases this

/-! ## What a pipe conveys -/

/-- The records of the topology stream. -/
def topologyOf (sent : List (StreamId × Record)) : List Record :=
  (sent.filter (·.1 = .topology)).map Prod.snd

theorem topologyOf_append (sent sent' : List (StreamId × Record)) :
    topologyOf (sent ++ sent') = topologyOf sent ++ topologyOf sent' := by
  rw [topologyOf, List.filter_append, List.map_append]
  rfl

theorem topologyOf_singleton_of_ne (h : stream ≠ .topology) :
    topologyOf [(stream, record)] = [] := by
  rw [topologyOf, List.filter_cons_of_neg (by simpa using h)]
  rfl

/-- What was sent to the tap has been forwarded, up to the event in hand, and what has been
forwarded is in the ledger, up to the records on their way. -/
structure Carries (codec : PayloadCodec VW HW) (proj : Projections V HE VW HW)
    (pipe : Pipe V HE) (tap : Channel (TemporalEvent V HE)) (sent : List (TemporalEvent V HE))
    (ledger : Ledger prims) (forwarded : List (TemporalEvent V HE)) : Prop where
  holds : Holds prims (pipe.store.volume .topology) ledger.frames
  taken : forwarded ++ (pipe.forwarder.inHand ++ tap.queue) = sent
  carried : List.Forall₂ (fun event record ↦ topologyRecord codec proj event = .ok record)
    forwarded (ledger.records ++ topologyOf (pipe.writer.inHand ++ pipe.writerRx.queue))

/-- The pipe conveys what was sent to the tap. -/
def Conveys (prims : Primitives) (codec : PayloadCodec VW HW) (proj : Projections V HE VW HW)
    (pipe : Pipe V HE) (tap : Channel (TemporalEvent V HE)) (sent : List (TemporalEvent V HE)) :
    Prop :=
  ∃ (ledger : Ledger prims) (forwarded : List (TemporalEvent V HE)),
    Carries codec proj pipe tap sent ledger forwarded

section Conveys

variable {sent : List (TemporalEvent V HE)}

/-- Only what the tasks have in hand, the channels and the store matter. -/
theorem Conveys.congr (h : Conveys prims codec proj pipe tap sent)
    (hf : pipe'.forwarder.inHand ++ tap'.queue = pipe.forwarder.inHand ++ tap.queue)
    (hw : pipe'.writer.inHand ++ pipe'.writerRx.queue = pipe.writer.inHand ++ pipe.writerRx.queue)
    (hs : pipe'.store = pipe.store) : Conveys prims codec proj pipe' tap' sent := by
  obtain ⟨ledger, forwarded, hc⟩ := h
  refine ⟨ledger, forwarded, ?_, ?_, ?_⟩
  · rw [hs]
    exact hc.holds
  · rw [hf]
    exact hc.taken
  · rw [hw]
    exact hc.carried

/-- A pipe that starts with an empty topology stream conveys nothing yet. -/
theorem conveys_spawn {store : FileEventStore}
    (h : Holds prims (store.volume .topology) []) (capacity writerCapacity : Nat)
    (producers : Bool) :
    Conveys prims codec proj (spawn store writerCapacity producers) (.new capacity) [] :=
  ⟨.empty, [], h, rfl, .nil⟩

/-- Events are sent to the tap. -/
theorem Conveys.tapped (h : Conveys prims codec proj pipe tap sent)
    {events : List (TemporalEvent V HE)} (hq : tap'.queue = tap.queue ++ events) :
    Conveys prims codec proj (pipe.tapped tap tap') tap' (sent ++ events) := by
  obtain ⟨ledger, forwarded, hc⟩ := h
  refine ⟨ledger, forwarded, hc.holds, ?_, hc.carried⟩
  change forwarded ++ ((pipe.forwarder.arrive _).inHand ++ tap'.queue) = _
  rw [Consumer.inHand_arrive, hq, ← hc.taken, List.append_assoc, List.append_assoc]

/-- A record of another stream is sent to the writer. -/
theorem Conveys.send_other (h : Conveys prims codec proj pipe tap sent)
    (hs : stream ≠ .topology) (hsend : pipe.send stream record = some pipe') :
    Conveys prims codec proj pipe' tap sent := by
  rcases send_cases hsend with ⟨rx, hrx, rfl⟩ | rfl
  · obtain ⟨ledger, forwarded, hc⟩ := h
    refine ⟨ledger, forwarded, hc.holds, hc.taken, ?_⟩
    change List.Forall₂ _ _ (_ ++ topologyOf ((pipe.writer.arrive 1).inHand ++ rx.queue))
    rw [Consumer.inHand_arrive, hrx, ← List.append_assoc, topologyOf_append,
      topologyOf_singleton_of_ne hs, List.append_nil]
    exact hc.carried
  · exact h.congr rfl rfl rfl

/-- The event in hand is forwarded. -/
theorem Conveys.forwardOne (h : Conveys prims codec proj pipe tap sent)
    {event : TemporalEvent V HE} (hand : pipe.forwarder.inHand = [event])
    (hf : pipe.forwardOne codec proj event = some pipe') (hl : pipe'.Lossless) :
    Conveys prims codec proj { pipe' with forwarder := pipe'.forwarder.finish } tap sent := by
  rcases forwardOne_cases hf with ⟨e, -, rfl⟩ | ⟨record, hrec, hsend⟩
  · exact (not_lossless_warn rfl hl).elim
  rcases send_cases hsend with ⟨rx, hrx, rfl⟩ | rfl
  · obtain ⟨ledger, forwarded, hc⟩ := h
    refine ⟨ledger, forwarded ++ [event], hc.holds, ?_, ?_⟩
    · change forwarded ++ [event] ++ (pipe.forwarder.finish.inHand ++ tap.queue) = sent
      rw [Consumer.inHand_finish, List.nil_append, List.append_assoc, ← hand]
      exact hc.taken
    · change List.Forall₂ _ _ (_ ++ topologyOf ((pipe.writer.arrive 1).inHand ++ rx.queue))
      rw [Consumer.inHand_arrive, hrx, ← List.append_assoc, topologyOf_append, ← List.append_assoc]
      exact List.rel_append hc.carried (.cons hrec .nil)
  · exact (not_lossless_warn rfl hl).elim

/-- The record in hand is appended. -/
theorem Conveys.offloadAppend (h : Conveys prims codec proj pipe tap sent) {faults : Faults}
    (hand : pipe.writer.inHand = [(stream, record)])
    (hl : (pipe.offloadAppend prims faults stream record).Lossless) :
    let after := pipe.offloadAppend prims faults stream record
    Conveys prims codec proj { after with writer := after.writer.finish } tap sent := by
  obtain ⟨ledger, forwarded, hc⟩ := h
  have hcarried := hc.carried
  rw [hand, topologyOf_append] at hcarried
  by_cases hs : stream = .topology
  · subst hs
    rcases offloadAppend_cases prims faults pipe .topology record with
      ⟨head, store, happ, heq⟩ | ⟨e, store, happ, heq⟩
    · obtain ⟨v, hv, rfl⟩ := FileEventStore.append_eq_ok.mp happ
      obtain ⟨frame, hframe, -, -, hholds⟩ := append_ok hc.holds hv
      obtain ⟨-, hentries⟩ := ledger.append_of_ok hframe
      refine ⟨(ledger.append record).2, forwarded, ?_, ?_, ?_⟩
      · rw [heq]
        change Holds prims ((pipe.store.setVolume .topology v).volume .topology) _
        rw [FileEventStore.volume_setVolume, Ledger.frames, hentries, List.map_append]
        exact hholds
      · rw [heq]
        exact hc.taken
      · rw [heq]
        change List.Forall₂ _ _ (_ ++ topologyOf (pipe.writer.finish.inHand ++ pipe.writerRx.queue))
        rw [Consumer.inHand_finish, List.nil_append, Ledger.records, hentries, List.map_append,
          List.append_assoc]
        exact hcarried
    · rw [heq] at hl
      exact (not_lossless_warn rfl hl).elim
  · -- the topology stream is not touched
    have hframe : (finalState (pipe.store.append prims faults stream record)).volume .topology =
        pipe.store.volume .topology := FileEventStore.append_frame (Ne.symm hs)
    rw [topologyOf_singleton_of_ne hs, List.nil_append] at hcarried
    have hafter : ∃ store ws, store.volume .topology = pipe.store.volume .topology ∧
        pipe.offloadAppend prims faults stream record =
          { pipe with store := store, warnings := ws } := by
      rcases offloadAppend_cases prims faults pipe stream record with
        ⟨head, store, happ, heq⟩ | ⟨e, store, happ, heq⟩
      · rw [happ] at hframe
        exact ⟨store, _, hframe, heq⟩
      · rw [happ] at hframe
        exact ⟨store, _, hframe, heq⟩
    obtain ⟨store, ws, hvolume, heq⟩ := hafter
    refine ⟨ledger, forwarded, ?_, ?_, ?_⟩
    · rw [heq]
      change Holds prims (store.volume .topology) ledger.frames
      rw [hvolume]
      exact hc.holds
    · rw [heq]
      exact hc.taken
    · rw [heq]
      change List.Forall₂ _ _ (_ ++ topologyOf (pipe.writer.finish.inHand ++ pipe.writerRx.queue))
      rw [Consumer.inHand_finish, List.nil_append]
      exact hcarried

/-- One move conveys what was sent to the tap, if it loses no record of the topology stream
and no other producer sends one. -/
theorem Conveys.move (h : Conveys prims codec proj pipe tap sent) {m : Move}
    (hm : m.producesTopology = false)
    (hmove : pipe.move prims codec proj tapGone tap m = some (tap', pipe')) (hl : pipe'.Lossless) :
    Conveys prims codec proj pipe' tap' sent := by
  cases m with
  | cancelForwarder | cancelWriter | dropProducers =>
      cases hmove
      exact h.congr rfl rfl rfl
  | pollForwarder =>
      obtain ⟨⟨forwarder, rx⟩, hpoll, hmove⟩ := Option.map_eq_some_iff.mp hmove
      cases hmove
      exact h.congr (Consumer.poll_conserves hpoll) rfl rfl
  | pollWriter =>
      obtain ⟨⟨writer, rx⟩, hpoll, hmove⟩ := Option.map_eq_some_iff.mp hmove
      cases hmove
      exact h.congr rfl (Consumer.poll_conserves hpoll) rfl
  | dropTapRx | dropWriterRx =>
      simp only [Pipe.move] at hmove
      split at hmove <;> cases hmove
      exact h.congr rfl rfl rfl
  | produce stream record =>
      simp only [Pipe.move] at hmove
      split at hmove
      · obtain ⟨p, hp, hmove⟩ := Option.map_eq_some_iff.mp hmove
        cases hmove
        exact h.send_other (of_decide_eq_false hm) hp
      · cases hmove
  | forwardOne =>
      simp only [Pipe.move] at hmove
      split at hmove
      · rename_i event draining hphase
        obtain ⟨p, hp, hmove⟩ := Option.map_eq_some_iff.mp hmove
        cases hmove
        exact h.forwardOne (by rw [Consumer.inHand, hphase]) hp hl
      · cases hmove
  | offloadAppend faults =>
      simp only [Pipe.move] at hmove
      split at hmove
      · rename_i stream record draining hphase
        cases hmove
        exact h.offloadAppend (by rw [Consumer.inHand, hphase]) hl
      · cases hmove

/-- What is recorded is mirrored to the tap, and a tap that dropped nothing conveys it. -/
theorem Conveys.mirrors {before after : EventTap V HE} {log log' : List (TemporalEvent V HE)}
    (h : before.warnings = [] → Conveys prims codec proj pipe before.channel log)
    (hlog : (log' = log ∧ after = before) ∨
      ∃ event, log' = log ++ [event] ∧ tapEvent (some before) event = some after)
    (hwarn : after.warnings = []) :
    Conveys prims codec proj (pipe.tapped before.channel after.channel) after.channel log' := by
  rcases hlog with ⟨rfl, rfl⟩ | ⟨event, rfl, htap⟩
  · -- nothing is recorded
    have htapped := (h hwarn).tapped (List.append_nil after.channel.queue).symm
    rw [List.append_nil] at htapped
    exact htapped
  · -- an event is recorded and mirrored
    rcases tapEvent_cases htap with ⟨hq, hw⟩ | ⟨-, reason, hw⟩
    · exact (h (hw.symm.trans hwarn)).tapped hq
    · rw [hwarn] at hw
      exact absurd hw.symm (List.append_ne_nil_of_right_ne_nil _ (List.cons_ne_nil _ _))

/-- A pipe that has nothing on its way has stored everything that was sent to the tap. -/
theorem Conveys.stored (h : Conveys prims codec proj pipe tap sent) (htap : tap.queue = [])
    (hf : pipe.forwarder.inHand = []) (hrx : pipe.writerRx.queue = [])
    (hw : pipe.writer.inHand = []) :
    ∃ ledger : Ledger prims, Holds prims (pipe.store.volume .topology) ledger.frames ∧
      List.Forall₂ (fun event record ↦ topologyRecord codec proj event = .ok record)
        sent ledger.records := by
  obtain ⟨ledger, forwarded, hc⟩ := h
  have htaken := hc.taken
  have hcarried := hc.carried
  rw [hf, htap, List.append_nil, List.append_nil] at htaken
  rw [hw, hrx, List.append_nil] at hcarried
  refine ⟨ledger, hc.holds, ?_⟩
  rw [← htaken]
  change List.Forall₂ _ _ (ledger.records ++ []) at hcarried
  rwa [List.append_nil] at hcarried

end Conveys

end Pipe

/-! ## A graph with its tap -/

/-- The values and tasks of a graph, and the pipe at its tap. -/
structure Pipeline (G V HE E : Type) where
  system : System G V HE E
  /-- Nobody holds a sender of the tap any more. -/
  tapGone : Bool
  pipe : Pipe V HE

namespace Pipeline

/-- What can happen in a pipeline. -/
inductive Action (V HE E : Type) where
  /-- Something happens to the values and tasks of the graph. -/
  | act (action : System.Action V HE E)
  /-- The values are dropped, which none of their tasks outlives. -/
  | dropTap
  | move (m : Move)

variable {G E : Type}

/-- A new graph with a tap, and tasks that have just been started. -/
def spawn (graph : G) (capacity writerCapacity : Nat) (producers : Bool) (store : FileEventStore) :
    Pipeline G V HE E where
  system := .ofValue (fresh graph (some (.new capacity)))
  tapGone := false
  pipe := .spawn store writerCapacity producers

/-- One action, if it is possible. -/
def step [Hypergraph G V HE E] (prims : Primitives) (codec : PayloadCodec VW HW)
    (proj : Projections V HE VW HW) (line : Pipeline G V HE E) :
    Action V HE E → Option (Pipeline G V HE E)
  | .act action =>
      if line.tapGone then none
      else do
        let system ← line.system.act action
        let before ← line.system.shared.eventTap
        let after ← system.shared.eventTap
        return { line with system := system, pipe := line.pipe.tapped before.channel after.channel }
  | .dropTap =>
      if line.system.tasks.all (fun task ↦ task.2.isDone) then
        some { line with tapGone := true }
      else none
  | .move m => do
      let tap ← line.system.shared.eventTap
      let (channel, pipe) ← line.pipe.move prims codec proj line.tapGone tap.channel m
      let shared := { line.system.shared with eventTap := some { tap with channel := channel } }
      return { line with system := { line.system with shared := shared }, pipe := pipe }

/-- Actions one after the other. -/
def run [Hypergraph G V HE E] (prims : Primitives) (codec : PayloadCodec VW HW)
    (proj : Projections V HE VW HW) (actions : List (Action V HE E))
    (line : Pipeline G V HE E) : Option (Pipeline G V HE E) :=
  actions.foldlM (step prims codec proj) line

/-- No record of the topology stream comes from elsewhere. -/
def Action.fromTapOnly : Action V HE E → Bool
  | .move m => !m.producesTopology
  | _ => true

/-- Nothing that was recorded has been dropped, by the tap or behind it. -/
def Lossless (line : Pipeline G V HE E) : Prop :=
  (∀ tap, line.system.shared.eventTap = some tap → tap.warnings = []) ∧ line.pipe.Lossless

/-- Nothing is on its way to the store. -/
structure Settled (line : Pipeline G V HE E) : Prop where
  tap : ∀ tap, line.system.shared.eventTap = some tap → tap.channel.queue = []
  forwarder : line.pipe.forwarder.inHand = []
  writerRx : line.pipe.writerRx.queue = []
  writer : line.pipe.writer.inHand = []

/-! ## Replay parity -/

/-- The log is the log of its events, and the pipe conveys them as long as nothing is
dropped. -/
structure Faithful (prims : Primitives) (codec : PayloadCodec VW HW)
    (proj : Projections V HE VW HW) (line : Pipeline G V HE E) : Prop where
  locked : System.Locked line.system
  log : line.system.shared.events = .ofEvents line.system.shared.events.events
  conveys : line.Lossless → ∃ tap, line.system.shared.eventTap = some tap ∧
    line.pipe.Conveys prims codec proj tap.channel line.system.shared.events.events

section Faithful

variable {prims : Primitives} {codec : PayloadCodec VW HW} {proj : Projections V HE VW HW}
variable {line line' : Pipeline G V HE E}

theorem faithful_spawn {store : FileEventStore} (h : Holds prims (store.volume .topology) [])
    (graph : G) (capacity writerCapacity : Nat) (producers : Bool) :
    Faithful prims codec proj
      (spawn graph capacity writerCapacity producers store : Pipeline G V HE E) where
  locked := (System.stamps_ofValue graph (some (.new capacity))).1
  log := rfl
  conveys _ := ⟨_, rfl, Pipe.conveys_spawn h capacity writerCapacity producers⟩

variable [Hypergraph G V HE E]

/-- One action keeps the pipeline faithful. -/
theorem Faithful.step (h : Faithful prims codec proj line) {action : Action V HE E}
    (hfrom : action.fromTapOnly = true) (hstep : line.step prims codec proj action = some line') :
    Faithful prims codec proj line' := by
  cases action with
  | act a =>
      simp only [Pipeline.step] at hstep
      split at hstep
      · cases hstep
      obtain ⟨system, hact, hstep⟩ := Option.bind_eq_some_iff.mp hstep
      obtain ⟨before, hbefore, hstep⟩ := Option.bind_eq_some_iff.mp hstep
      obtain ⟨after, hafter, hstep⟩ := Option.bind_eq_some_iff.mp hstep
      cases hstep
      have hconv : before.warnings = [] → line.pipe.Lossless →
          line.pipe.Conveys prims codec proj before.channel line.system.shared.events.events :=
        fun hwarn hlossless ↦ by
          obtain ⟨tap, htap, hconv⟩ := h.conveys ⟨fun t ht ↦ by
            cases hbefore.symm.trans ht
            exact hwarn, hlossless⟩
          cases hbefore.symm.trans htap
          exact hconv
      obtain ⟨hl, ⟨hevents, htap⟩ | ⟨event, hevents, htap⟩⟩ := System.act_log h.locked hact
      · refine ⟨hl, hevents ▸ h.log, fun hlossless ↦ ⟨after, hafter, ?_⟩⟩
        refine Pipe.Conveys.mirrors (fun hwarn ↦ hconv hwarn hlossless.2) (Or.inl ⟨?_, ?_⟩)
          (hlossless.1 after hafter)
        · rw [hevents]
        · exact Option.some.inj (hafter.symm.trans (htap.trans hbefore))
      · refine ⟨hl, ?_, fun hlossless ↦ ⟨after, hafter, ?_⟩⟩
        · rw [hevents, EventLog.events_append, EventLog.ofEvents_concat, ← h.log]
        refine Pipe.Conveys.mirrors (fun hwarn ↦ hconv hwarn hlossless.2)
          (Or.inr ⟨event, ?_, ?_⟩) (hlossless.1 after hafter)
        · rw [hevents, EventLog.events_append]
        · rw [← hbefore, ← hafter, htap]
  | dropTap =>
      simp only [Pipeline.step] at hstep
      split at hstep <;> cases hstep
      exact ⟨h.locked, h.log, h.conveys⟩
  | move m =>
      obtain ⟨tap, htap, hstep⟩ := Option.bind_eq_some_iff.mp hstep
      obtain ⟨⟨channel, pipe⟩, hmove, hstep⟩ := Option.bind_eq_some_iff.mp hstep
      cases hstep
      refine ⟨h.locked.congr rfl rfl rfl rfl, h.log, fun hlossless ↦ ?_⟩
      obtain ⟨ws, hws⟩ := Pipe.warnings_move hmove
      have hwarn : tap.warnings = [] := hlossless.1 { tap with channel := channel } rfl
      obtain ⟨tap', htap', hconv⟩ := h.conveys ⟨fun t ht ↦ by
        cases htap.symm.trans ht
        exact hwarn, hlossless.2.of_append hws⟩
      cases htap.symm.trans htap'
      have hm : (!m.producesTopology) = true := hfrom
      rw [Bool.not_eq_true'] at hm
      exact ⟨_, rfl, hconv.move hm hmove hlossless.2⟩

/-- So does a whole run. -/
theorem Faithful.run (h : Faithful prims codec proj line) {actions : List (Action V HE E)}
    (hfrom : ∀ action ∈ actions, action.fromTapOnly = true)
    (hrun : line.run prims codec proj actions = some line') :
    Faithful prims codec proj line' :=
  foldlM_inv (fun _ ha _ _ h hstep ↦ h.step (hfrom _ ha) hstep) h hrun

end Faithful

/-- A stream without a head holds no frames. -/
theorem holds_nil_of_head {v : Volume} {prims : Primitives} {frames : List Lib.Framing.Bytes}
    (h : Holds prims v frames) (hhead : v.state.head = none) : Holds prims v [] := by
  rcases List.eq_nil_or_concat frames with rfl | ⟨init, frame, rfl⟩
  · exact h
  · rw [h.head_eq, List.concat_eq_append, headOf_concat] at hhead
    cases hhead

/-- **Replay parity.**  The tap of a new graph is forwarded to a store whose topology stream
is empty, while mutations and snapshots through the value and its clones, the two tasks, and
other producers take turns in any way.  If nothing has been dropped and nothing is on its
way, then the live log is what replay makes of the topology stream, and replay from a
position on appends the events from there to an empty log. -/
theorem replay_parity [Hypergraph G V HE E] {prims : Primitives} (hp : prims.RoundTrips)
    {codec : PayloadCodec VW HW} (hc : codec.RoundTrips) {proj : Projections V HE VW HW}
    (hproj : proj.RoundTrips) (store : FileEventStore)
    (hstore : FileEventStore.Reachable prims store) (hhead : store.head .topology = none)
    (graph : G) (capacity writerCapacity : Nat) (producers : Bool)
    (actions : List (Action V HE E)) (hfrom : ∀ action ∈ actions, action.fromTapOnly = true)
    (fin : Pipeline G V HE E)
    (hrun : (spawn graph capacity writerCapacity producers store).run prims codec proj actions =
      some fin)
    (hlossless : fin.Lossless) (hsettled : fin.Settled) :
    replayIntoEventLog prims codec proj fin.pipe.store 0 = .ok fin.system.shared.events ∧
    ∀ fromSeq, replayIntoEventLog prims codec proj fin.pipe.store fromSeq =
      .ok (.ofEvents (fin.system.shared.events.events.drop fromSeq)) := by
  obtain ⟨frames, hholds⟩ := hstore.holds .topology
  have hfin := (faithful_spawn (holds_nil_of_head hholds hhead) graph capacity writerCapacity
    producers).run hfrom hrun
  obtain ⟨tap, htap, hconv⟩ := hfin.conveys hlossless
  obtain ⟨ledger, hledger, hrecords⟩ := hconv.stored (hsettled.tap tap htap) hsettled.forwarder
    hsettled.writerRx hsettled.writer
  have hreplay := replayIntoEventLog_eq hp hc hproj hledger hrecords
  refine ⟨?_, hreplay⟩
  rw [hreplay, List.drop_zero, ← hfin.log]

end Pipeline

namespace Sample

/-- CBOR on the payloads of the two records. -/
def payloadCodec : PayloadCodec Nat Nat where
  intoWriter wire := tableWrite [(.vertexAdded 0 0 5, payload 0 0 5),
    (.vertexAdded 1 1 7, payload 1 1 7)] wire
  fromReader := tableRead [(.vertexAdded 0 0 5, payload 0 0 5),
    (.vertexAdded 1 1 7, payload 1 1 7)]

theorem payloadCodec_roundTrips : payloadCodec.RoundTrips :=
  fun _ _ hw ↦ tableRead_tableWrite (by decide +kernel) hw

/-- A store on a new disk. -/
def store : FileEventStore :=
  match FileEventStore.openOn codec ⟨1⟩ fun _ ↦ [] with
  | .ok store _ => store
  | .error _ disk => ⟨disk, ⟨1⟩, fun _ ↦ .blank⟩

theorem reachable_store : FileEventStore.Reachable codec store := by
  obtain ⟨opened, hopen, -⟩ := exists_openOn_empty codec ⟨1⟩
  have hstore : store = opened := by rw [store, hopen]
  rw [hstore]
  refine .opened (fun _ ↦ ?_) hopen
  exact List.nodup_nil

/-- Two vertices are added, the second while the first is being forwarded, and both tasks
stop when the value is dropped. -/
def actions : List (Pipeline.Action Nat Nat MapGraphError) :=
  (addAlone 0 0 5).map .act ++ [.move .pollForwarder] ++ (addAlone 0 1 7).map .act ++
    [.dropTap, .move .forwardOne, .move .pollWriter, .move .pollForwarder, .move .forwardOne,
      .move (.offloadAppend {}), .move .pollForwarder, .move .pollWriter,
      .move (.offloadAppend {}), .move .pollWriter]

end Sample

/-- The two vertices are read back, and the second alone. -/
theorem replay_parity_sample :
    ∃ fin : Pipeline (MapGraph Nat Nat) Nat Nat MapGraphError,
      (Pipeline.spawn Hypergraph.new 2 1 false Sample.store).run Sample.codec Sample.payloadCodec
        (.identity Nat Nat) Sample.actions = some fin ∧
      fin.system.shared.events.events = [.vertexAdded 0 0 5, .vertexAdded 1 1 7] ∧
      replayIntoEventLog Sample.codec Sample.payloadCodec (.identity Nat Nat) fin.pipe.store 0 =
        .ok fin.system.shared.events ∧
      replayIntoEventLog Sample.codec Sample.payloadCodec (.identity Nat Nat) fin.pipe.store 1 =
        .ok (.ofEvents [.vertexAdded 1 1 7]) := by
  have hcheck : ((Pipeline.spawn Hypergraph.new 2 1 false Sample.store).run Sample.codec
      Sample.payloadCodec (.identity Nat Nat) Sample.actions).map
        (fun fin : Pipeline (MapGraph Nat Nat) Nat Nat MapGraphError ↦
          (fin.system.shared.events.events,
            fin.system.shared.eventTap.map fun tap ↦
              tap.warnings.length + tap.channel.queue.length,
            fin.pipe.forwarder.inHand.length + fin.pipe.writer.inHand.length +
              fin.pipe.writerRx.queue.length + fin.pipe.warnings.length)) =
      some ([.vertexAdded 0 0 5, .vertexAdded 1 1 7], some 0, 0) := by
    decide +kernel
  obtain ⟨fin, hfin, hcheck⟩ := Option.map_eq_some_iff.mp hcheck
  simp only [Prod.mk.injEq, Nat.add_eq_zero_iff, List.length_eq_zero_iff] at hcheck
  obtain ⟨hevents, htap, ⟨⟨hforwarder, hwriter⟩, hrx⟩, hwarnings⟩ := hcheck
  obtain ⟨tap, htap', hnone⟩ := Option.map_eq_some_iff.mp htap
  rw [Nat.add_eq_zero_iff, List.length_eq_zero_iff, List.length_eq_zero_iff] at hnone
  have hparity := Pipeline.replay_parity Sample.roundTrips Sample.payloadCodec_roundTrips
    (Projections.identity_roundTrips Nat Nat) Sample.store
    Sample.reachable_store (by decide +kernel) Hypergraph.new 2 1 false Sample.actions (by decide)
    fin hfin
    ⟨fun t ht ↦ Option.some.inj (htap'.symm.trans ht) ▸ hnone.1,
      fun w hw ↦ by rw [hwarnings] at hw; cases hw⟩
    ⟨fun t ht ↦ Option.some.inj (htap'.symm.trans ht) ▸ hnone.2, hforwarder, hrx, hwriter⟩
  refine ⟨fin, hfin, hevents, hparity.1, ?_⟩
  have hone := hparity.2 1
  rwa [hevents] at hone

end Koalisi.Persistence
