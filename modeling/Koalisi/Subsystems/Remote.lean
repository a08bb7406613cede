import Mathlib.Logic.Function.Basic
import Koalisi.Lib.Cursor
import Koalisi.Lib.Fallible
import Koalisi.Subsystems.CoalitionActor

/-!
# The remote gateway

A gateway numbers the decision records it receives, keeps the last few of them, and
answers remote peers that ask for what is behind a cursor.  A poll takes nothing away, so
any number of clients can hold cursors of their own; a client that lags misses what was
evicted.

Requests and responses are messages that are answered in any order, arrive late or are
lost; a client waits for one response at a time, and ignores the response to a request it
has given up.  Whatever a client has missed shows as a gap at the poll that skipped it
(`cursor_protocol`).
-/

namespace Koalisi.Subsystems

open Koalisi.Lib Koalisi.Lib.Fallible Koalisi.Topology

variable {Score : Type}

/-! ## Wire types -/

/-- Wire-schema version of the events. -/
def remoteWireSchemaVersion : UInt16 := 1

/-- Mirror of a decision record, with the number the gateway gave it. -/
structure RemoteCoalitionEventV1 (Score : Type) where
  schemaVersion : UInt16
  seq : U64
  coalition : String
  agentId : Nat
  kind : String
  act : Bool
  score : Score
deriving DecidableEq, Repr

/-- Project a decision record onto the wire. -/
def RemoteCoalitionEventV1.fromRecord (seq : U64) (record : DecisionRecord Score) :
    RemoteCoalitionEventV1 Score where
  schemaVersion := remoteWireSchemaVersion
  seq := seq
  coalition := record.coalition
  agentId := record.agentId
  kind := record.kind.asStr
  act := record.act
  score := record.score

/-- What a client can ask for. -/
inductive EventRequest where
  /-- Every buffered event behind a cursor. -/
  | pollSince (lastSeq : U64)
  | head
deriving DecidableEq, Repr

/-- What the gateway answers. -/
inductive EventResponse (Score : Type) where
  | events (headSeq : U64) (events : List (RemoteCoalitionEventV1 Score))
  | head (headSeq : U64) (len : Nat)
deriving DecidableEq, Repr

/-! ## The buffer -/

/-- The bounded buffer of numbered events. -/
structure EventBuffer (Score : Type) where
  events : List (RemoteCoalitionEventV1 Score)
  cap : Nat
  /-- The number of the next record. -/
  nextSeq : U64
  /-- A capacity of 0 would let the buffer grow. -/
  clamped : 1 ≤ cap
deriving DecidableEq

namespace EventBuffer

/-- A buffer for at most `cap` events. -/
def new (cap : Nat) : EventBuffer Score where
  events := []
  cap := max cap 1
  nextSeq := 1
  clamped := Nat.le_max_right cap 1

/-- Number a record and buffer it, evicting the oldest event if the buffer is full.  There
is no number behind the last `u64`: the addition overflows. -/
def pushRecord (buffer : EventBuffer Score) (record : DecisionRecord Score) :
    Option (U64 × EventBuffer Score) :=
  let seq := buffer.nextSeq
  if h : seq.val + 1 < 2 ^ 64 then
    some (seq, { buffer with
      nextSeq := ⟨seq.val + 1, h⟩
      events := Cursor.slide buffer.cap buffer.events (.fromRecord seq record) })
  else none

/-- The number of the newest event, or 0. -/
def headSeq (buffer : EventBuffer Score) : U64 :=
  ⟨buffer.nextSeq.val - 1, Nat.lt_of_le_of_lt (Nat.sub_le _ _) buffer.nextSeq.isLt⟩

def len (buffer : EventBuffer Score) : Nat := buffer.events.length

/-- The reply to a request. -/
def respond (buffer : EventBuffer Score) : EventRequest → EventResponse Score
  | .pollSince lastSeq => .events buffer.headSeq (buffer.events.filter (lastSeq < ·.seq))
  | .head => .head buffer.headSeq buffer.len

end EventBuffer

/-! ## Clients -/

/-- Why a poll failed although a response arrived. -/
inductive ClientError where
  /-- The schema of an event is newer than the client. -/
  | newerSchema (seq : U64) (schemaVersion : UInt16)
  | unexpectedResponse
deriving DecidableEq, Repr

/-- Refuse events with a newer schema. -/
def refuseNewerSchema (events : List (RemoteCoalitionEventV1 Score)) : Except ClientError Unit :=
  match events.find? (remoteWireSchemaVersion < ·.schemaVersion) with
  | some ev => .error (.newerSchema ev.seq ev.schemaVersion)
  | none => .ok ()

/-- What `poll_since` makes of a response. -/
def polled : EventResponse Score → Except ClientError (U64 × List (RemoteCoalitionEventV1 Score))
  | .events headSeq events => do
      refuseNewerSchema events
      return (headSeq, events)
  | .head .. => throw .unexpectedResponse

/-- A poll that succeeded, with the events its caller took. -/
structure Poll (Score : Type) where
  since : U64
  events : List (RemoteCoalitionEventV1 Score)
deriving DecidableEq, Repr

/-- A client, and the cursor of its caller. -/
structure RemoteCoalitionClient (Score : Type) where
  /-- The number of the last event that was taken. -/
  cursor : U64
  /-- The name of the next request. -/
  next : Nat
  /-- The request whose response the client waits for. -/
  awaiting : Option (Nat × EventRequest)
  /-- The polls so far. -/
  polls : List (Poll Score)
deriving DecidableEq, Repr

namespace RemoteCoalitionClient

/-- A client that has seen nothing. -/
def connect : RemoteCoalitionClient Score where
  cursor := 0
  next := 0
  awaiting := none
  polls := []

/-- Send a request. -/
def send (client : RemoteCoalitionClient Score) (request : EventRequest) :
    RemoteCoalitionClient Score :=
  { client with next := client.next + 1, awaiting := some (client.next, request) }

/-- Stop waiting: the request failed, or timed out. -/
def giveUp (client : RemoteCoalitionClient Score) : RemoteCoalitionClient Score :=
  { client with awaiting := none }

/-- The caller takes events and moves its cursor to the last of them. -/
def advance (client : RemoteCoalitionClient Score) (since : U64)
    (events : List (RemoteCoalitionEventV1 Score)) : RemoteCoalitionClient Score :=
  { client with
    cursor := (events.getLast?.map (·.seq)).getD client.cursor
    polls := client.polls ++ [⟨since, events⟩] }

/-- The response to a request has arrived; of the events of a poll, the caller takes at most
`limit`. -/
def finish (client : RemoteCoalitionClient Score) (limit : Nat) (request : EventRequest)
    (response : EventResponse Score) : RemoteCoalitionClient Score :=
  match request with
  | .head => client.giveUp
  | .pollSince lastSeq =>
      match polled response with
      | .ok (_, events) => client.giveUp.advance lastSeq (events.take limit)
      | .error _ => client.giveUp

/-- A response arrives, which is ignored unless the client waits for it. -/
def receive (client : RemoteCoalitionClient Score) (limit id : Nat)
    (response : EventResponse Score) : RemoteCoalitionClient Score :=
  match client.awaiting with
  | some (awaited, request) =>
      if awaited = id then client.finish limit request response else client
  | none => client

/-- The numbers of the events taken, poll by poll. -/
def readings (client : RemoteCoalitionClient Score) : List Cursor.Reading :=
  client.polls.map fun poll ↦ ⟨poll.since.val, poll.events.map (·.seq.val)⟩

/-- The numbers of the events taken. -/
def delivered (client : RemoteCoalitionClient Score) : List Nat :=
  client.polls.flatMap fun poll ↦ poll.events.map (·.seq.val)

end RemoteCoalitionClient

/-! ## The gateway and its clients -/

abbrev ClientId := Nat

/-- A message on its way between the gateway and a client. -/
structure Message (α : Type) where
  client : ClientId
  /-- The name of the request, which the client gave it. -/
  id : Nat
  body : α
deriving DecidableEq, Repr

/-- A gateway, its clients and what is on its way between them. -/
structure Remote (Score : Type) where
  running : Bool
  buffer : EventBuffer Score
  clients : ClientId → RemoteCoalitionClient Score
  requests : List (Message EventRequest)
  responses : List (Message (EventResponse Score))
  /-- The records that were pushed. -/
  pushed : List (DecisionRecord Score)

namespace Remote

/-- What can happen. -/
inductive Action (Score : Type) where
  /-- The gateway receives a record from the decision tap. -/
  | push (record : DecisionRecord Score)
  /-- The gateway is cancelled, or the tap is closed. -/
  | stop
  /-- A client polls with its cursor. -/
  | poll (client : ClientId)
  | head (client : ClientId)
  /-- The gateway answers a request. -/
  | serve (k : Nat)
  /-- A response arrives, of which at most `limit` events are taken. -/
  | receive (k limit : Nat)
  | loseRequest (k : Nat)
  | loseResponse (k : Nat)
  | giveUp (client : ClientId)

/-- A gateway that has been enabled. -/
def enable (cap : Nat) : Remote Score where
  running := true
  buffer := .new cap
  clients _ := .connect
  requests := []
  responses := []
  pushed := []

/-- A client sends a request, unless it waits for a response. -/
def send (s : Remote Score) (id : ClientId) (request : EventRequest) : Option (Remote Score) :=
  let client := s.clients id
  if client.awaiting = none then
    some { s with
      clients := Function.update s.clients id (client.send request)
      requests := s.requests ++ [⟨id, client.next, request⟩] }
  else none

/-- One action, if it is possible. -/
def step (s : Remote Score) : Action Score → Option (Remote Score)
  | .push record =>
      if s.running then do
        let (_, buffer) ← s.buffer.pushRecord record
        return { s with buffer := buffer, pushed := s.pushed ++ [record] }
      else none
  | .stop => some { s with running := false }
  | .poll id => s.send id (.pollSince (s.clients id).cursor)
  | .head id => s.send id .head
  | .serve k =>
      if s.running then do
        let m ← s.requests[k]?
        return { s with
          requests := s.requests.eraseIdx k
          responses := s.responses ++ [⟨m.client, m.id, s.buffer.respond m.body⟩] }
      else none
  | .receive k limit => do
      let m ← s.responses[k]?
      let client := (s.clients m.client).receive limit m.id m.body
      return { s with
        clients := Function.update s.clients m.client client
        responses := s.responses.eraseIdx k }
  | .loseRequest k => some { s with requests := s.requests.eraseIdx k }
  | .loseResponse k => some { s with responses := s.responses.eraseIdx k }
  | .giveUp id =>
      some { s with clients := Function.update s.clients id (s.clients id).giveUp }

/-- A run. -/
def run (actions : List (Action Score)) (s : Remote Score) : Option (Remote Score) :=
  actions.foldlM step s

end Remote

/-! ## What the buffer holds -/

/-- The events made of records, numbered from 1. -/
def stamped (pushed : List (DecisionRecord Score)) : List (RemoteCoalitionEventV1 Score) :=
  pushed.mapIdx fun i record ↦ .fromRecord (Fin.ofNat _ (i + 1)) record

theorem stamped_concat (pushed : List (DecisionRecord Score)) (record : DecisionRecord Score) :
    stamped (pushed ++ [record]) =
      stamped pushed ++ [.fromRecord (Fin.ofNat _ (pushed.length + 1)) record] :=
  List.mapIdx_concat

theorem stamped_grows {earlier pushed : List (DecisionRecord Score)} (h : earlier <+: pushed) :
    stamped earlier <+: stamped pushed := by
  obtain ⟨later, rfl⟩ := h
  rw [stamped, stamped, List.mapIdx_append]
  exact List.prefix_append _ _

/-- The numbers are consecutive as long as they fit. -/
theorem seqs_stamped {pushed : List (DecisionRecord Score)} (h : pushed.length < 2 ^ 64) :
    (stamped pushed).map (·.seq.val) = List.range' 1 pushed.length := by
  refine List.ext_getElem ?_ fun i hi hi' ↦ ?_
  · rw [List.length_map, stamped, List.length_mapIdx, List.length_range']
  · rw [List.length_range'] at hi'
    rw [List.getElem_map, List.getElem_range']
    simp only [stamped, List.getElem_mapIdx]
    change (i + 1) % 2 ^ 64 = _
    rw [Nat.mod_eq_of_lt (by omega)]
    omega

namespace EventBuffer

/-- The buffer holds the last of the records that were pushed. -/
structure Holds (buffer : EventBuffer Score) (pushed : List (DecisionRecord Score)) : Prop where
  nextSeq : buffer.nextSeq.val = pushed.length + 1
  events : buffer.events = (stamped pushed).rtake buffer.cap

variable {buffer buffer' : EventBuffer Score} {pushed : List (DecisionRecord Score)}

theorem holds_new (cap : Nat) : (new cap : EventBuffer Score).Holds [] where
  nextSeq := rfl
  events := (List.rtake_nil _).symm

theorem Holds.length_lt (h : buffer.Holds pushed) : pushed.length < 2 ^ 64 := by
  have := buffer.nextSeq.isLt
  have := h.nextSeq
  omega

theorem Holds.headSeq (h : buffer.Holds pushed) : buffer.headSeq.val = pushed.length := by
  change buffer.nextSeq.val - 1 = _
  rw [h.nextSeq, Nat.add_sub_cancel]

/-- Pushing numbers the record, and keeps the last of the events. -/
theorem Holds.pushRecord (h : buffer.Holds pushed) {record : DecisionRecord Score} {seq : U64}
    (hpush : buffer.pushRecord record = some (seq, buffer')) :
    seq.val = pushed.length + 1 ∧ buffer'.cap = buffer.cap ∧
      buffer'.Holds (pushed ++ [record]) := by
  simp only [EventBuffer.pushRecord] at hpush
  split at hpush
  · cases hpush
    refine ⟨h.nextSeq, rfl, ?_, ?_⟩
    · rw [List.length_append, List.length_singleton]
      exact congrArg (· + 1) h.nextSeq
    · have hseq : buffer.nextSeq = Fin.ofNat _ (pushed.length + 1) := by
        refine Fin.ext ?_
        have := buffer.nextSeq.isLt
        rw [Fin.val_ofNat, ← h.nextSeq, Nat.mod_eq_of_lt this]
      rw [stamped_concat, ← hseq, ← Cursor.slide_rtake buffer.clamped, ← h.events]
  · cases hpush

/-- The numbers in the buffer are the last consecutive ones. -/
theorem Holds.seqs (h : buffer.Holds pushed) :
    buffer.events.map (·.seq.val) =
      List.range' (pushed.length + 1 - min pushed.length buffer.cap)
        (min pushed.length buffer.cap) := by
  rw [← Cursor.rtake_range', ← seqs_stamped h.length_lt, h.events, List.rtake, List.rtake,
    List.map_drop, List.length_map]

/-- The numbers behind a cursor. -/
theorem Holds.seqs_filter (h : buffer.Holds pushed) (lastSeq : U64) :
    (buffer.events.filter (lastSeq < ·.seq)).map (·.seq.val) =
      (List.range' (pushed.length + 1 - min pushed.length buffer.cap)
        (min pushed.length buffer.cap)).filter (lastSeq.val < ·) := by
  rw [← h.seqs, List.filter_map]
  rfl

/-- What is buffered was pushed. -/
theorem Holds.mem_stamped (h : buffer.Holds pushed) {event : RemoteCoalitionEventV1 Score}
    (hevent : event ∈ buffer.events) : event ∈ stamped pushed := by
  rw [h.events] at hevent
  exact List.mem_of_mem_drop hevent

end EventBuffer

/-- A response that the gateway gives before more is pushed, if anything. -/
def Answers (pushed : List (DecisionRecord Score)) (request : EventRequest)
    (response : EventResponse Score) : Prop :=
  ∃ earlier buffer, earlier <+: pushed ∧ EventBuffer.Holds buffer earlier ∧
    response = buffer.respond request

theorem Answers.mono {pushed pushed' : List (DecisionRecord Score)} {request : EventRequest}
    {response : EventResponse Score} (h : Answers pushed request response)
    (hpushed : pushed <+: pushed') : Answers pushed' request response := by
  obtain ⟨earlier, buffer, hearlier, hholds, hresponse⟩ := h
  exact ⟨earlier, buffer, hearlier.trans hpushed, hholds, hresponse⟩

/-! ## What a client has seen -/

namespace RemoteCoalitionClient

variable {client : RemoteCoalitionClient Score} {pushed : List (DecisionRecord Score)}

/-- The cursor stands where the readings end, and a poll that waits was sent with it. -/
structure Sound (pushed : List (DecisionRecord Score)) (client : RemoteCoalitionClient Score) :
    Prop where
  tracked : Cursor.Tracked 0 client.cursor.val client.readings
  pushed : ∀ poll ∈ client.polls, ∀ event ∈ poll.events, event ∈ stamped pushed
  awaits : ∀ id lastSeq, client.awaiting = some (id, .pollSince lastSeq) → lastSeq = client.cursor

/-- If the client waits for the response to a message, the message has the property. -/
def Expects (client : RemoteCoalitionClient Score) (id : Nat) (P : EventRequest → Prop) : Prop :=
  id < client.next ∧ ∀ request, client.awaiting = some (id, request) → P request

theorem sound_connect (pushed : List (DecisionRecord Score)) : Sound pushed connect where
  tracked := Cursor.tracked_nil 0
  pushed _ h := nomatch h
  awaits _ _ h := nomatch h

theorem Sound.mono {pushed' : List (DecisionRecord Score)} (h : client.Sound pushed)
    (hpushed : pushed <+: pushed') : client.Sound pushed' where
  tracked := h.tracked
  pushed poll hpoll event hevent :=
    (stamped_grows hpushed).subset (h.pushed poll hpoll event hevent)
  awaits := h.awaits

theorem Sound.giveUp (h : client.Sound pushed) : client.giveUp.Sound pushed where
  tracked := h.tracked
  pushed := h.pushed
  awaits _ _ h := nomatch h

theorem Sound.send (h : client.Sound pushed) {request : EventRequest}
    (hrequest : ∀ lastSeq, request = .pollSince lastSeq → lastSeq = client.cursor) :
    (client.send request).Sound pushed where
  tracked := h.tracked
  pushed := h.pushed
  awaits id lastSeq hawaits := by
    cases hawaits
    exact hrequest lastSeq rfl

/-- Taking consecutive events moves the cursor to the last of them. -/
theorem tracked_advance {events : List (RemoteCoalitionEventV1 Score)}
    (h : Cursor.Tracked 0 client.cursor.val client.readings)
    (hdense : Cursor.Reading.Dense ⟨client.cursor.val, events.map (·.seq.val)⟩) :
    Cursor.Tracked 0 (client.advance client.cursor events).cursor.val
      (client.advance client.cursor events).readings := by
  have hcursor : (client.advance client.cursor events).cursor.val =
      Cursor.Reading.next ⟨client.cursor.val, events.map (·.seq.val)⟩ := by
    rw [Cursor.Reading.next, List.getLast?_map, advance]
    cases events.getLast? <;> rfl
  have hreadings : (client.advance client.cursor events).readings =
      client.readings ++ [⟨client.cursor.val, events.map (·.seq.val)⟩] := List.map_append
  rw [hcursor, hreadings]
  exact h.read hdense

/-- What is taken of a response keeps the cursor at the end of the readings. -/
theorem Sound.finish (h : client.Sound pushed) {request : EventRequest}
    {response : EventResponse Score} (hcursor : ∀ lastSeq, request = .pollSince lastSeq →
      lastSeq = client.cursor) (hanswers : Answers pushed request response) (limit : Nat) :
    (client.finish limit request response).Sound pushed := by
  cases request with
  | head => exact h.giveUp
  | pollSince lastSeq =>
      obtain ⟨earlier, buffer, hearlier, hholds, rfl⟩ := hanswers
      cases hcursor lastSeq rfl
      simp only [RemoteCoalitionClient.finish]
      split
      · rename_i headSeq events hpolled
        obtain ⟨-, -, hok⟩ := except_bind_eq_ok.mp hpolled
        cases hok
        -- the events behind the cursor are consecutive, and so are those taken
        have hdense : Cursor.Reading.Dense ⟨client.cursor.val,
            ((buffer.events.filter (client.cursor < ·.seq)).take limit).map (·.seq.val)⟩ := by
          rw [List.map_take, hholds.seqs_filter]
          exact (Cursor.Reading.dense_filter _ _ _).take limit
        refine ⟨?_, ?_, fun _ _ h ↦ nomatch h⟩
        · exact tracked_advance h.giveUp.tracked hdense
        · intro poll hpoll event hevent
          rcases List.mem_append.mp hpoll with hpoll | hpoll
          · exact h.pushed poll hpoll event hevent
          · rw [List.mem_singleton.mp hpoll] at hevent
            exact (stamped_grows hearlier).subset
              (hholds.mem_stamped (List.mem_filter.mp (List.mem_of_mem_take hevent)).1)
      · exact h.giveUp

theorem Expects.send {id : Nat} {P : EventRequest → Prop} (h : client.Expects id P)
    (request : EventRequest) : (client.send request).Expects id P := by
  refine ⟨Nat.lt_succ_of_lt h.1, fun request hawaits ↦ ?_⟩
  cases hawaits
  exact absurd h.1 (Nat.lt_irrefl _)

theorem Expects.giveUp {id : Nat} {P : EventRequest → Prop} (h : client.Expects id P) :
    client.giveUp.Expects id P :=
  ⟨h.1, fun _ hawaits ↦ nomatch hawaits⟩

theorem Expects.imp {id : Nat} {P Q : EventRequest → Prop} (h : client.Expects id P)
    (hPQ : ∀ request, P request → Q request) : client.Expects id Q :=
  ⟨h.1, fun request hawaits ↦ hPQ request (h.2 request hawaits)⟩

/-- A client that has finished waits for nothing. -/
theorem finish_awaiting (limit : Nat) (request : EventRequest) (response : EventResponse Score) :
    (client.finish limit request response).awaiting = none ∧
      (client.finish limit request response).next = client.next := by
  unfold finish
  split
  · exact ⟨rfl, rfl⟩
  · split <;> exact ⟨rfl, rfl⟩

theorem Expects.finish {id : Nat} {P : EventRequest → Prop} (h : client.Expects id P) (limit : Nat)
    (request : EventRequest) (response : EventResponse Score) :
    (client.finish limit request response).Expects id P := by
  obtain ⟨hnone, hnext⟩ : (client.finish limit request response).awaiting = none ∧
      (client.finish limit request response).next = client.next :=
    finish_awaiting limit request response
  refine ⟨?_, fun request' hawaits ↦ ?_⟩
  · rw [hnext]
    exact h.1
  · rw [hnone] at hawaits
    cases hawaits

theorem Expects.receive {id : Nat} {P : EventRequest → Prop} (h : client.Expects id P)
    (limit id' : Nat) (response : EventResponse Score) :
    (client.receive limit id' response).Expects id P := by
  unfold RemoteCoalitionClient.receive
  split
  · split
    · exact h.finish limit _ response
    · exact h
  · exact h

/-- A response to the awaited request, or any other. -/
theorem Sound.receive (h : client.Sound pushed) {id : Nat} {response : EventResponse Score}
    (hexpects : client.Expects id fun request ↦ Answers pushed request response) (limit : Nat) :
    (client.receive limit id response).Sound pushed := by
  unfold RemoteCoalitionClient.receive
  split
  · rename_i awaited request hawaits
    split
    · rename_i heq
      subst heq
      refine h.finish (fun lastSeq hrequest ↦ ?_) (hexpects.2 request hawaits) limit
      subst hrequest
      exact h.awaits awaited lastSeq hawaits
    · exact h
  · exact h

/-- The readings are of what was delivered. -/
theorem delivered_readings (client : RemoteCoalitionClient Score) :
    Cursor.delivered client.readings = client.delivered := by
  rw [Cursor.delivered, readings, List.flatMap_map, delivered]

end RemoteCoalitionClient

/-! ## Runs -/

namespace Remote

variable {s t : Remote Score} {cap : Nat}

/-- The buffer holds the last of the records, each client knows what it has seen, and what is
on its way is a request of a client or an answer to it. -/
structure Sound (cap : Nat) (s : Remote Score) : Prop where
  cap : s.buffer.cap = cap
  buffer : s.buffer.Holds s.pushed
  clients : ∀ id, (s.clients id).Sound s.pushed
  requests : ∀ m ∈ s.requests, (s.clients m.client).Expects m.id (· = m.body)
  responses : ∀ m ∈ s.responses,
    (s.clients m.client).Expects m.id fun request ↦ Answers s.pushed request m.body

theorem sound_enable (cap : Nat) : (enable cap : Remote Score).Sound (max cap 1) where
  cap := rfl
  buffer := EventBuffer.holds_new cap
  clients _ := RemoteCoalitionClient.sound_connect []
  requests _ h := nomatch h
  responses _ h := nomatch h

/-- Replacing a client by one that expects no more than before. -/
theorem Sound.update (h : s.Sound cap) (id : ClientId) {client : RemoteCoalitionClient Score}
    (hclient : client.Sound s.pushed)
    (hexpects : ∀ i P, (s.clients id).Expects i P → client.Expects i P) :
    Sound cap { s with clients := Function.update s.clients id client } := by
  have hall : ∀ other i P, (s.clients other).Expects i P →
      (Function.update s.clients id client other).Expects i P := fun other i P hother ↦ by
    rcases eq_or_ne other id with rfl | hne
    · rw [Function.update_self]
      exact hexpects i P hother
    · rwa [Function.update_of_ne hne]
  refine ⟨h.cap, h.buffer, fun other ↦ ?_, fun m hm ↦ hall _ _ _ (h.requests m hm),
    fun m hm ↦ hall _ _ _ (h.responses m hm)⟩
  change RemoteCoalitionClient.Sound s.pushed (Function.update s.clients id client other)
  rcases eq_or_ne other id with rfl | hne
  · rw [Function.update_self]
    exact hclient
  · rw [Function.update_of_ne hne]
    exact h.clients other

theorem Sound.push (h : s.Sound cap) {record : DecisionRecord Score} {seq : U64}
    {buffer : EventBuffer Score} (hpush : s.buffer.pushRecord record = some (seq, buffer)) :
    Sound cap { s with buffer := buffer, pushed := s.pushed ++ [record] } where
  cap := (h.buffer.pushRecord hpush).2.1.trans h.cap
  buffer := (h.buffer.pushRecord hpush).2.2
  clients id := (h.clients id).mono (List.prefix_append _ _)
  requests := h.requests
  responses m hm :=
    (h.responses m hm).imp fun _ hanswers ↦ hanswers.mono (List.prefix_append _ _)

theorem Sound.send (h : s.Sound cap) {id : ClientId} {request : EventRequest}
    (hrequest : ∀ lastSeq, request = .pollSince lastSeq → lastSeq = (s.clients id).cursor)
    (hsend : s.send id request = some t) : t.Sound cap := by
  simp only [Remote.send] at hsend
  split at hsend
  · cases hsend
    have hs := h.update id ((h.clients id).send hrequest) fun _ _ hexpects ↦ hexpects.send request
    refine ⟨hs.cap, hs.buffer, hs.clients, fun m hm ↦ ?_, hs.responses⟩
    rcases List.mem_append.mp hm with hm | hm
    · exact hs.requests m hm
    · rw [List.mem_singleton.mp hm]
      change (Function.update s.clients id ((s.clients id).send request) id).Expects _ _
      rw [Function.update_self]
      refine ⟨Nat.lt_succ_self _, fun request' hawaits ↦ ?_⟩
      cases hawaits
      rfl
  · cases hsend

/-- The answer to a request is on its way instead of the request. -/
theorem Sound.serve (h : s.Sound cap) {k : Nat} {m : Message EventRequest}
    (hm : s.requests[k]? = some m) :
    Sound cap { s with
      requests := s.requests.eraseIdx k
      responses := s.responses ++ [⟨m.client, m.id, s.buffer.respond m.body⟩] } where
  cap := h.cap
  buffer := h.buffer
  clients := h.clients
  requests m' hm' := h.requests m' (List.mem_of_mem_eraseIdx hm')
  responses m' hm' := by
    rcases List.mem_append.mp hm' with hm' | hm'
    · exact h.responses m' hm'
    · rw [List.mem_singleton.mp hm']
      refine (h.requests m (List.mem_of_getElem? hm)).imp fun request hrequest ↦ ?_
      rw [hrequest]
      exact ⟨s.pushed, s.buffer, List.prefix_refl _, h.buffer, rfl⟩

/-- A response arrives. -/
theorem Sound.receive (h : s.Sound cap) {m : Message (EventResponse Score)} (hm : m ∈ s.responses)
    (limit : Nat) :
    Sound cap { s with
      clients := Function.update s.clients m.client
        ((s.clients m.client).receive limit m.id m.body) } :=
  h.update m.client ((h.clients m.client).receive (h.responses m hm) limit)
    fun _ _ hexpects ↦ hexpects.receive limit m.id m.body

/-- One action keeps the system sound. -/
theorem Sound.step (h : s.Sound cap) {action : Action Score} (hstep : s.step action = some t) :
    t.Sound cap := by
  cases action with
  | push record =>
      simp only [Remote.step] at hstep
      split at hstep
      · obtain ⟨⟨seq, buffer⟩, hpush, hstep⟩ := Option.bind_eq_some_iff.mp hstep
        cases hstep
        exact h.push hpush
      · cases hstep
  | stop =>
      cases hstep
      exact ⟨h.cap, h.buffer, h.clients, h.requests, h.responses⟩
  | poll id =>
      refine h.send (fun lastSeq hrequest ↦ ?_) hstep
      cases hrequest
      rfl
  | head id => exact h.send (fun _ hrequest ↦ by cases hrequest) hstep
  | serve k =>
      simp only [Remote.step] at hstep
      split at hstep
      · obtain ⟨m, hm, hstep⟩ := Option.bind_eq_some_iff.mp hstep
        cases hstep
        exact h.serve hm
      · cases hstep
  | receive k limit =>
      obtain ⟨m, hm, hstep⟩ := Option.bind_eq_some_iff.mp hstep
      cases hstep
      have hs := h.receive (List.mem_of_getElem? hm) limit
      exact ⟨hs.cap, hs.buffer, hs.clients, hs.requests,
        fun m' hm' ↦ hs.responses m' (List.mem_of_mem_eraseIdx hm')⟩
  | loseRequest k =>
      cases hstep
      exact ⟨h.cap, h.buffer, h.clients, fun m hm ↦ h.requests m (List.mem_of_mem_eraseIdx hm),
        h.responses⟩
  | loseResponse k =>
      cases hstep
      exact ⟨h.cap, h.buffer, h.clients, h.requests,
        fun m hm ↦ h.responses m (List.mem_of_mem_eraseIdx hm)⟩
  | giveUp id =>
      cases hstep
      exact h.update id (h.clients id).giveUp fun _ _ hexpects ↦ hexpects.giveUp

theorem Sound.run (h : s.Sound cap) {actions : List (Action Score)}
    (hrun : s.run actions = some t) : t.Sound cap :=
  foldlM_inv (fun _ _ _ _ hs hstep ↦ hs.step hstep) h hrun

/-- What a client is delivered is what was pushed, under the number it was pushed with. -/
theorem delivered_as_pushed {actions : List (Action Score)} {fin : Remote Score}
    (hrun : (enable cap).run actions = some fin) (id : ClientId) :
    ∀ poll ∈ (fin.clients id).polls, ∀ event ∈ poll.events, event ∈ stamped fin.pushed :=
  (((sound_enable cap).run hrun).clients id).pushed

/-- **The cursor protocol.**  Records are pushed, requests and responses travel, are lost or
given up, and clients take what they like of a response from its front, in any order.  The
buffer holds the last consecutive numbers, up to the head and up to its capacity; what one
client is delivered is strictly increasing; and whatever number its cursor has passed without
its being delivered lies in a gap that showed at the poll that skipped it. -/
theorem cursor_protocol (cap : Nat) (actions : List (Action Score)) (fin : Remote Score)
    (hrun : (enable cap).run actions = some fin) :
    fin.buffer.headSeq.val = fin.pushed.length ∧
    fin.buffer.events.map (·.seq.val) =
      List.range' (fin.pushed.length + 1 - min fin.pushed.length (max cap 1))
        (min fin.pushed.length (max cap 1)) ∧
    ∀ id,
      (fin.clients id).delivered.Pairwise (· < ·) ∧
      ∀ seq, 0 < seq → seq ≤ (fin.clients id).cursor.val → seq ∉ (fin.clients id).delivered →
        ∃ poll ∈ (fin.clients id).polls, ∃ first, poll.events.head? = some first ∧
          poll.since.val < seq ∧ seq < first.seq.val ∧ poll.since.val + 1 < first.seq.val := by
  have hfin : fin.Sound (max cap 1) := (sound_enable cap).run hrun
  have hseqs := hfin.buffer.seqs
  rw [hfin.cap] at hseqs
  refine ⟨hfin.buffer.headSeq, hseqs, fun id ↦ ?_⟩
  have htracked := (hfin.clients id).tracked
  rw [← RemoteCoalitionClient.delivered_readings]
  refine ⟨htracked.sorted, fun seq hpos hle hseq ↦ ?_⟩
  obtain ⟨reading, hmem, hskips⟩ := htracked.skipped seq hpos hle hseq
  obtain ⟨poll, hpoll, rfl⟩ := List.mem_map.mp hmem
  obtain ⟨hsince, first, hfirst, hlt⟩ := hskips
  rw [List.head?_map] at hfirst
  obtain ⟨event, hevent, rfl⟩ := Option.map_eq_some_iff.mp hfirst
  have hsince' : poll.since.val < seq := hsince
  exact ⟨poll, hpoll, event, hevent, hsince', hlt, by omega⟩

/-- A record about an agent. -/
def joined (agent : Nat) : DecisionRecord Nat := ⟨"coalition-7", agent, .join, true, 0⟩

/-- A client polls after the first record and again after the fifth, and another one in
between takes one event only. -/
def lagging : List (Action Nat) :=
  [.push (joined 1), .poll 0, .serve 0, .receive 0 8, .push (joined 2), .push (joined 3),
    .poll 1, .push (joined 4), .serve 0, .receive 0 1, .push (joined 5), .poll 0, .serve 0,
    .receive 0 8]

/-- The second record was evicted before the first client could see it, and the client can
tell: it asked for what is behind 1 and was given 4. -/
theorem a_gap_shows :
    ∃ fin, (enable 2).run lagging = some fin ∧
      fin.buffer.events.map (·.seq.val) = [4, 5] ∧
      (fin.clients 0).delivered = [1, 4, 5] ∧ (fin.clients 1).delivered = [3] ∧
      ∃ poll ∈ (fin.clients 0).polls, ∃ first, poll.events.head? = some first ∧
        poll.since.val < 2 ∧ 2 < first.seq.val ∧ poll.since.val + 1 < first.seq.val := by
  obtain ⟨fin, hrun, hpushed, hfirst, hsecond, hcursor⟩ :
      ∃ fin, (enable 2).run lagging = some fin ∧ fin.pushed.length = 5 ∧
        (fin.clients 0).delivered = [1, 4, 5] ∧ (fin.clients 1).delivered = [3] ∧
        (fin.clients 0).cursor.val = 5 :=
    ⟨_, rfl, rfl, rfl, rfl, rfl⟩
  obtain ⟨-, hbuffer, hclients⟩ := cursor_protocol 2 lagging fin hrun
  rw [hpushed] at hbuffer
  exact ⟨fin, hrun, hbuffer, hfirst, hsecond, (hclients 0).2 2 (by decide) (by rw [hcursor]; decide)
    (by rw [hfirst]; decide)⟩

end Remote

end Koalisi.Subsystems
