import Koalisi.Subsystems.Outcomes
import Koalisi.Topology.Decisions
import Koalisi.Topology.MapGraph

/-!
# The coalition service

A `CoalitionService` serves joins and leaves that a policy decides on, and reads of the
members.  Its world is what the task owns: the manager, the context of its decisions, and
two optional taps.  A decision is put on the taps once the manager has returned it,
together with the topology position that was read before the manager was called; a tap
that is full or closed drops it.

What becomes of requests is `outcome_protocol`, for every order of requests, cancel,
dropped handles and panics.
-/

namespace Koalisi.Subsystems

open Koalisi.Lib Koalisi.Lib.Fallible Koalisi.Topology

variable {G V HE E Score : Type}

/-! ## Taps -/

/-- Which membership operation a record describes. -/
inductive DecisionKind where
  | join
  | leave
deriving DecidableEq, Repr

/-- Stable lowercase wire label. -/
def DecisionKind.asStr : DecisionKind → String
  | .join => "join"
  | .leave => "leave"

/-- A record of one join/leave decision. -/
structure DecisionRecord (Score : Type) where
  coalition : String
  agentId : Nat
  kind : DecisionKind
  act : Bool
  score : Score
deriving DecidableEq, Repr

/-- A record with the topology position the decision was taken at. -/
structure DecisionTrace (Score : Type) where
  record : DecisionRecord Score
  /-- Length of the event log before the manager call. -/
  eventLogLen : U64
  /-- Logical-clock value before the manager call. -/
  timestamp : U64
deriving DecidableEq, Repr

/-- A topology position. -/
structure DecisionPosition where
  eventLogLen : U64
  timestamp : U64
deriving DecidableEq, Repr

/-- A decision tap, with everything emitted on it. -/
structure DecisionTap (α : Type) where
  channel : Channel α
  /-- Items the channel took. -/
  sent : List α
  /-- Items that were dropped, and why. -/
  dropped : List (TrySendError × α)
deriving DecidableEq

/-- Try to send an item; a full or closed channel drops it. -/
def DecisionTap.tryEmit {α : Type} (tap : DecisionTap α) (item : α) : DecisionTap α :=
  match tap.channel.trySend item with
  | .ok channel => { tap with channel := channel, sent := tap.sent ++ [item] }
  | .error reason => { tap with dropped := tap.dropped ++ [(reason, item)] }

/-- What the service task owns. -/
structure Owned (G V HE Score : Type) where
  manager : TemporalHypergraph G V HE
  ctx : DecisionContext
  tap : Option (DecisionTap (DecisionRecord Score))
  traceTap : Option (DecisionTap (DecisionTrace Score))

/-- A computation of the service task. -/
abbrev Work (G V HE E Score T : Type) := EStateM (Fault E) (Owned G V HE Score) T

/-- Call the manager. -/
def onManager {T : Type} (x : EStateM (Fault E) (TemporalHypergraph G V HE) T) :
    Work G V HE E Score T :=
  focus Owned.manager (fun own manager ↦ { own with manager := manager }) x

/-- Read the position, if a trace tap is installed. -/
def decisionPosition : Work G V HE E Score (Option DecisionPosition) := look fun own ↦
  .ok (own.traceTap.map fun _ ↦
    { eventLogLen := Fin.ofNat _ own.manager.events.len
      timestamp := own.manager.clock.current })

/-- The record of a decision. -/
def decisionRecord (coalition : HyperedgeIndex) (agent : VertexIndex) (kind : DecisionKind)
    (decision : Decision Score) : DecisionRecord Score where
  coalition := s!"coalition-{coalition}"
  agentId := agent
  kind := kind
  act := decision.act
  score := decision.score

/-- Emit a record on the tap. -/
def emitDecision (coalition : HyperedgeIndex) (agent : VertexIndex) (kind : DecisionKind)
    (decision : Decision Score) : Work G V HE E Score Unit := fun own ↦
  .ok () { own with
    tap := own.tap.map fun tap ↦ tap.tryEmit (decisionRecord coalition agent kind decision) }

/-- The trace of a decision taken at a position. -/
def decisionTrace (position : DecisionPosition) (coalition : HyperedgeIndex)
    (agent : VertexIndex) (kind : DecisionKind) (decision : Decision Score) :
    DecisionTrace Score where
  record := decisionRecord coalition agent kind decision
  eventLogLen := position.eventLogLen
  timestamp := position.timestamp

/-- Emit a trace on the trace tap, if there is a tap and a position. -/
def emitTrace (position : Option DecisionPosition) (coalition : HyperedgeIndex)
    (agent : VertexIndex) (kind : DecisionKind) (decision : Decision Score) :
    Work G V HE E Score Unit := fun own ↦
  match own.traceTap, position with
  | some tap, some position =>
      .ok () { own with
        traceTap := some (tap.tryEmit (decisionTrace position coalition agent kind decision)) }
  | _, _ => .ok () own

/-! ## Commands -/

/-- What a client can ask for. -/
inductive CoalitionCommand where
  | join (agent : VertexIndex) (coalition : HyperedgeIndex)
  | leave (agent : VertexIndex) (coalition : HyperedgeIndex)
  | members (coalition : HyperedgeIndex)
deriving DecidableEq, Repr

/-- What a client is told. -/
inductive CoalitionReply (Score : Type) where
  | decision (decision : Decision Score)
  | members (members : List VertexIndex)
deriving DecidableEq, Repr

/-- What the outcome of a command depends on beside the world: the policy as it stands, and
the text of the payload if something panics. -/
structure Circumstances (V Score : Type) where
  policy : CoalitionDecisionPolicy V Score
  payload : String

section Work

variable [Hypergraph G V HE E]

/-- Decide with the manager, between reading the position and emitting the decision. -/
def decision (coalition : HyperedgeIndex) (agent : VertexIndex) (kind : DecisionKind)
    (call : DecisionContext → EStateM (Fault E) (TemporalHypergraph G V HE) (Decision Score)) :
    Work G V HE E Score (CoalitionReply Score) := do
  let position ← decisionPosition
  let decision ← fun own ↦ onManager (call own.ctx) own
  emitDecision coalition agent kind decision
  emitTrace position coalition agent kind decision
  return .decision decision

variable [Zero Score]

/-- The work on a command. -/
def commandWork (policy : CoalitionDecisionPolicy V Score) :
    CoalitionCommand → Work G V HE E Score (CoalitionReply Score)
  | .join agent coalition =>
      decision coalition agent .join (CoalitionManager.tryJoinCoalition agent coalition policy)
  | .leave agent coalition =>
      decision coalition agent .leave (CoalitionManager.tryLeaveCoalition agent coalition policy)
  | .members coalition => do
      return .members (← onManager (CoalitionManager.coalitionMembers coalition))

/-- The work on a command, with a panic caught. -/
def catchUnwind (circumstances : Circumstances V Score) (cmd : CoalitionCommand)
    (own : Owned G V HE Score) :
    Except String (Except (TemporalError E) (CoalitionReply Score)) × Owned G V HE Score :=
  match commandWork circumstances.policy cmd own with
  | .ok reply own => (.ok (.ok reply), own)
  | .error (.err error) own => (.ok (.error error), own)
  | .error .panic own => (.error circumstances.payload, own)

end Work

/-! ## What a command leaves behind -/

/-- A decision is put on the trace tap with the position before it. -/
structure Emits [Hypergraph G V HE E] (own own' : Owned G V HE Score)
    (trace : DecisionTrace Score) : Prop where
  eventLogLen : trace.eventLogLen = Fin.ofNat _ own.manager.events.len
  timestamp : trace.timestamp = own.manager.clock.current
  placed : CoalitionManager.Placed own.manager own'.manager
    { act := trace.record.act, score := trace.record.score }
  traceTap : own'.traceTap = own.traceTap.map fun tap ↦ tap.tryEmit trace

/-- Nothing is decided: at most the lock of the graph is poisoned. -/
structure Unmoved (own own' : Owned G V HE Score) : Prop where
  manager : Failed own.manager own'.manager
  traceTap : own'.traceTap = own.traceTap

section Decision

variable {own own' : Owned G V HE Score} {coalition : HyperedgeIndex} {agent : VertexIndex}
variable {kind : DecisionKind}
variable {call : DecisionContext →
  EStateM (Fault E) (TemporalHypergraph G V HE) (Decision Score)}

/-- A command that decided nothing. -/
theorem unmoved_of_decision {fault : Fault E}
    (hcall : ∀ ctx manager fault manager', call ctx manager = .error fault manager' →
      Failed manager manager')
    (h : decision coalition agent kind call own = .error fault own') : Unmoved own own' := by
  rcases (still_look _).bind_eq_error h with rfl | ⟨position, h⟩
  · exact ⟨Or.inl rfl, rfl⟩
  rcases bind_eq_error.mp h with h | ⟨d, mid, -, h⟩
  · obtain ⟨manager, hmanager, rfl⟩ := focus_eq_error.mp h
    exact ⟨hcall _ _ _ _ hmanager, rfl⟩
  · -- emitting cannot fail
    rcases bind_eq_error.mp h with h | ⟨_, mid', -, h⟩
    · cases h
    rcases bind_eq_error.mp h with h | ⟨_, _, -, h⟩
    · unfold emitTrace at h
      split at h <;> cases h
    · exact absurd h pure_ne_error

variable [Hypergraph G V HE E]

/-- A command that decided something. -/
theorem emits_of_decision {reply : CoalitionReply Score}
    (hcall : ∀ ctx manager d manager', call ctx manager = .ok d manager' →
      CoalitionManager.Placed manager manager' d)
    (h : decision coalition agent kind call own = .ok reply own') :
    ∃ trace, Emits own own' trace := by
  obtain ⟨position, mid, hposition, h⟩ := bind_eq_ok.mp h
  obtain ⟨hposition, rfl⟩ := look_eq_ok.mp hposition
  cases hposition
  obtain ⟨d, mid, hmanager, h⟩ := bind_eq_ok.mp h
  obtain ⟨manager, hcalled, rfl⟩ := focus_eq_ok.mp hmanager
  have hplaced := hcall _ _ _ _ hcalled
  obtain ⟨_, _, hemit, h⟩ := bind_eq_ok.mp h
  cases hemit
  obtain ⟨_, mid, hemit, h⟩ := bind_eq_ok.mp h
  obtain ⟨-, rfl⟩ := pure_eq_ok.mp h
  refine ⟨decisionTrace ⟨Fin.ofNat _ own.manager.events.len, own.manager.clock.current⟩ coalition
    agent kind d, ?_⟩
  cases htap : own.traceTap with
  | none =>
      simp only [emitTrace, htap] at hemit
      cases hemit
      exact ⟨rfl, rfl, hplaced, by rw [htap]; rfl⟩
  | some tap =>
      simp only [emitTrace, htap] at hemit
      cases hemit
      exact ⟨rfl, rfl, hplaced, by rw [htap]; rfl⟩

variable [Zero Score]

theorem catchUnwind_snd (circumstances : Circumstances V Score) (cmd : CoalitionCommand)
    (own : Owned G V HE Score) :
    (catchUnwind circumstances cmd own).2 =
      finalState (commandWork circumstances.policy cmd own) := by
  unfold catchUnwind
  split <;> rename_i h <;> rw [h] <;> rfl

variable [LawfulHypergraph G]

/-- What a command leaves behind: a decision that was put on the trace tap, or nothing. -/
theorem catchUnwind_cases (circumstances : Circumstances V Score) (cmd : CoalitionCommand)
    (own : Owned G V HE Score) :
    (∃ trace, Emits own (catchUnwind circumstances cmd own).2 trace) ∨
      Unmoved own (catchUnwind circumstances cmd own).2 := by
  rw [catchUnwind_snd]
  cases h : commandWork circumstances.policy cmd own with
  | ok reply own' =>
      cases cmd with
      | join agent coalition =>
          rw [commandWork] at h
          exact Or.inl (emits_of_decision
            (fun _ _ _ _ hd ↦ CoalitionManager.placed_tryJoinCoalition hd) h)
      | leave agent coalition =>
          rw [commandWork] at h
          exact Or.inl (emits_of_decision
            (fun _ _ _ _ hd ↦ CoalitionManager.placed_tryLeaveCoalition hd) h)
      | members coalition =>
          obtain ⟨members, _, hread, h⟩ := bind_eq_ok.mp h
          obtain ⟨-, rfl⟩ := pure_eq_ok.mp h
          obtain ⟨manager, hmanager, rfl⟩ := focus_eq_ok.mp hread
          rw [(CoalitionManager.still_coalitionMembers coalition).eq_of_ok hmanager]
          exact Or.inr ⟨Or.inl rfl, rfl⟩
  | error fault own' =>
      cases cmd with
      | join agent coalition =>
          rw [commandWork] at h
          exact Or.inr (unmoved_of_decision
            (fun _ _ _ _ hd ↦ CoalitionManager.failed_tryJoinCoalition hd) h)
      | leave agent coalition =>
          rw [commandWork] at h
          exact Or.inr (unmoved_of_decision
            (fun _ _ _ _ hd ↦ CoalitionManager.failed_tryLeaveCoalition hd) h)
      | members coalition =>
          rcases bind_eq_error.mp h with hread | ⟨_, _, -, h⟩
          · obtain ⟨manager, hmanager, rfl⟩ := focus_eq_error.mp hread
            rw [(CoalitionManager.still_coalitionMembers coalition).eq_of_error hmanager]
            exact Or.inr ⟨Or.inl rfl, rfl⟩
          · exact absurd h pure_ne_error

end Decision

/-! ## Outcomes -/

/-- A coalition service with its clients. -/
abbrev CoalitionService (G V HE E Score : Type) :=
  Service (Owned G V HE Score) CoalitionCommand (CoalitionReply Score) E

namespace CoalitionService

open Service

section Outcomes

variable [Hypergraph G V HE E] [Zero Score]

/-- What becomes of the requests to a coalition service. -/
theorem outcome_protocol (own : Owned G V HE Score)
    (actions : List (Action (Owned G V HE Score) CoalitionCommand (Circumstances V Score)))
    (s : CoalitionService G V HE E Score)
    (hrun : (spawn own).run catchUnwind actions = some s) :
    -- no request has two outcomes, and a request that was sent is not forgotten
    (∀ reply, s.answered.count reply ≤ 1) ∧
    (∀ reply ∈ s.accepted, reply ∈ s.answered ∨ reply ∈ s.inHand ∨ reply ∈ s.queued) ∧
    -- the task changes the world only when it works on the request in its hand
    (∀ a t, s.step catchUnwind a = some t → t.world ≠ s.world →
      (∃ own, a = .outside own) ∨
        ∃ reply cmd, s.task = .handling reply cmd ∧ reply ∈ t.handled) ∧
    -- and it never works on what is refused or dropped
    (∀ reply error, (reply, .error error) ∈ s.outcomes →
      error = .cancelled ∨ error = .gone ∨ error = .replyDropped → reply ∉ s.handled) ∧
    -- a panic is reported to the request that panicked, with the flag set
    (∀ reply message, (reply, .error (.panicked message)) ∈ s.outcomes →
      s.faulted = some reply ∧ s.panicked = true) ∧
    (∀ reply outcome, s.faulted = some reply → (reply, outcome) ∈ s.outcomes →
      ∃ message, outcome = .error (.panicked message)) ∧
    (∀ reply, (reply, .error .replyDropped) ∈ s.outcomes →
      s.faulted ≠ none ∧ s.panicked = true) ∧
    ∀ more t, s.run catchUnwind more = some t →
      -- every request that was sent obtains its outcome
      (∀ reply ∈ s.accepted, t.task = .stopped ∨ patience < polls more →
        t.answered.count reply = 1) ∧
      -- a cancel refuses the queued requests, but for one that is being taken, or a panic
      (s.cancelled = true → ∀ reply ∈ s.queued, s.taking ≠ some reply →
        reply ∉ t.handled ∧ ∀ outcome, (reply, outcome) ∈ t.outcomes →
          (outcome = .error .cancelled ∧ t.faulted = none) ∨
            (outcome = .error .replyDropped ∧ t.panicked = true)) ∧
      (s.task = .refusing → ∀ reply ∈ s.queued, reply ∉ t.handled ∧
        ∀ outcome, (reply, outcome) ∈ t.outcomes → outcome = .error .cancelled) ∧
      -- nothing is worked on after a panic, and the queued requests are dropped
      (s.faulted ≠ none → t.handled = s.handled ∧
        ∀ reply ∈ s.queued, ∀ outcome, (reply, outcome) ∈ t.outcomes →
          outcome = .error .replyDropped) := by
  have hs : s.Sound := (sound_spawn own).run hrun
  refine ⟨hs.count_answered_le, fun reply hr ↦ mem_places.mp (hs.accounted reply hr),
    fun a t hstep hw ↦ ?_, ?_, ?_, ?_, ?_, ?_⟩
  · rcases (moves_of_step hstep).world.resolve_left hw with hout | ⟨_, reply, cmd, ht, hr, -⟩
    · exact Or.inl hout
    · exact Or.inr ⟨reply, cmd, ht, hr⟩
  · rintro reply error h (rfl | rfl | rfl)
    · exact (hs.fits_of_mem h).2.1
    · exact (hs.fits_of_mem h).2
    · exact (hs.fits_of_mem h).2.1
  · exact fun reply message h ↦ (hs.fits_of_mem h).2.2
  · exact fun reply outcome hr h ↦ hs.outcome_of_faulted hr h
  · intro reply h
    have hp := (hs.fits_of_mem h).2.2
    exact ⟨hs.faulted_of_panicked hp, hp⟩
  · intro more t hmore
    have ht : t.Sound := hs.run hmore
    refine ⟨fun reply hr hwhen ↦ ?_, fun hc reply hr htaking ↦ ?_, fun hrefusing reply hr ↦ ?_,
      fun hf ↦ ?_⟩
    · refine ht.count_answered ?_
      rcases hwhen with hstop | hlong
      · exact ht.answered_of_stopped hstop (accepted_run hmore hr)
      · exact hs.answered_of_polls hmore hr hlong
    · have hh := hs.unhandled_of_cancelled hmore hc hr htaking
      exact ⟨hh, fun outcome ho ↦
        ht.outcome_of_unhandled (accepted_run hmore (hs.waiting reply hr).1) hh ho⟩
    · obtain ⟨hhandled, hfaulted⟩ := refusing_run hmore (Or.inl hrefusing)
      obtain ⟨ha, hh⟩ := hs.waiting reply hr
      refine ⟨hhandled ▸ hh, fun outcome ho ↦ ?_⟩
      rcases ht.outcome_of_unhandled (accepted_run hmore ha) (hhandled ▸ hh) ho with
        ⟨hcancelled, -⟩ | ⟨-, hpanicked⟩
      · exact hcancelled
      · have hst := hs.stands
        rw [hrefusing] at hst
        exact absurd (hfaulted.trans hst.2.2) (ht.faulted_of_panicked hpanicked)
    · obtain ⟨hhandled, hfaulted⟩ := hs.faulted_run hmore hf
      refine ⟨hhandled, fun reply hr outcome ho ↦ ?_⟩
      obtain ⟨ha, hh⟩ := hs.waiting reply hr
      rcases ht.outcome_of_unhandled (accepted_run hmore ha) (hhandled ▸ hh) ho with
        ⟨-, hnone⟩ | ⟨hdropped, -⟩
      · exact absurd (hfaulted.symm.trans hnone) hf
      · exact hdropped

end Outcomes

/-! ## A panic and a cancel that comes late -/

/-- A policy that lets everybody in, and panics when somebody wants to leave. -/
def welcoming : Circumstances Nat Nat where
  policy := {
    shouldJoin := fun _ _ _ ↦ some { act := true, score := 1 }
    shouldLeave := fun _ _ _ ↦ none }
  payload := "no way out"

/-- Two agents, the first of them in a coalition. -/
def pair : Owned (MapGraph Nat Nat) Nat Nat Nat where
  manager := issue [.mutate (CoalitionManager.addAgent 10 : Call Nat Nat MapGraphError),
    .mutate (CoalitionManager.addAgent 11), .mutate (CoalitionManager.formCoalition [0] 7)]
    (TemporalHypergraph.new (E := MapGraphError))
  ctx := ⟨0⟩
  tap := none
  traceTap := none

/-- The task finds the token uncancelled, and then the token is cancelled, with a join queued. -/
def lateCancel :
    List (Action (Owned (MapGraph Nat Nat) Nat Nat Nat) CoalitionCommand (Circumstances Nat Nat)) :=
  [.request (.join 1 0), .poll welcoming, .cancel]

/-- The join is taken, worked on and answered. -/
def servedLate :
    List (Action (Owned (MapGraph Nat Nat) Nat Nat Nat) CoalitionCommand (Circumstances Nat Nat)) :=
  [.poll welcoming, .poll welcoming, .poll welcoming]

/-- A request that was queued when the token was cancelled is not refused: it changes the
members of the coalition, and is told so. -/
theorem queued_request_survives_cancel :
    ∃ s t : CoalitionService (MapGraph Nat Nat) Nat Nat MapGraphError Nat,
      (spawn pair).run catchUnwind lateCancel = some s ∧
      s.run catchUnwind servedLate = some t ∧
      s.cancelled = true ∧ s.queued = [0] ∧
      t.outcomes = [(0, .ok (.decision ⟨true, 1⟩))] ∧
      Hypergraph.getHyperedgeVertices 0 s.world.manager.graph = .ok [0] ∧
      Hypergraph.getHyperedgeVertices 0 t.world.manager.graph = .ok [0, 1] :=
  ⟨_, _, rfl, rfl, rfl, rfl, rfl, rfl, rfl⟩

/-- A leave is taken with a join queued behind it, and the token is cancelled. -/
def panicking :
    List (Action (Owned (MapGraph Nat Nat) Nat Nat Nat) CoalitionCommand (Circumstances Nat Nat)) :=
  [.request (.leave 0 0), .request (.join 1 0), .poll welcoming, .poll welcoming, .poll welcoming,
    .cancel]

/-- The flag is set, the panic reported, and the join dropped. -/
def unwinding :
    List (Action (Owned (MapGraph Nat Nat) Nat Nat Nat) CoalitionCommand (Circumstances Nat Nat)) :=
  [.poll welcoming, .poll welcoming, .poll welcoming, .request (.members 0), .poll welcoming,
    .poll welcoming]

/-- A leave whose policy panics, with a join behind it that nobody works on. -/
theorem outcome_protocol_of_a_panic :
    ∃ s t : CoalitionService (MapGraph Nat Nat) Nat Nat MapGraphError Nat,
      s.cancelled = true ∧ s.queued = [1] ∧ t.handled = [0] ∧
      t.outcomes = [(0, .error (.panicked "no way out")), (2, .error .gone),
        (1, .error .replyDropped)] ∧
      t.answered.count 1 = 1 := by
  obtain ⟨s, t, hs, ht, hcancelled, hqueued, hfaulted, hhandled, hstopped, haccepted, houtcomes⟩ :
      ∃ s t : CoalitionService (MapGraph Nat Nat) Nat Nat MapGraphError Nat,
        (spawn pair).run catchUnwind panicking = some s ∧ s.run catchUnwind unwinding = some t ∧
        s.cancelled = true ∧ s.queued = [1] ∧ s.faulted = some 0 ∧ s.handled = [0] ∧
        t.task = .stopped ∧ s.accepted = [0, 1] ∧
        t.outcomes = [(0, .error (.panicked "no way out")), (2, .error .gone),
          (1, .error .replyDropped)] :=
    ⟨_, _, rfl, rfl, rfl, rfl, rfl, rfl, rfl, rfl, rfl⟩
  obtain ⟨-, -, -, -, -, -, -, hmore⟩ := outcome_protocol pair panicking s hs
  obtain ⟨hanswered, -, -, hpanic⟩ := hmore unwinding t ht
  have hf : s.faulted ≠ none := by
    rw [hfaulted]
    exact fun h ↦ nomatch h
  exact ⟨s, t, hcancelled, hqueued, (hpanic hf).1.trans hhandled, houtcomes,
    hanswered 1 (by rw [haccepted]; decide) (Or.inl hstopped)⟩

end CoalitionService

end Koalisi.Subsystems
