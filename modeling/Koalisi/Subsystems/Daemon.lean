import Koalisi.Subsystems.CoalitionActor
import Koalisi.Subsystems.Stops

/-!
# The reference daemon

The daemon offers candidates to a coalition, one with each tick of a clock, and reads the size
of the coalition after each.  It does so in a task of its own, which is a client of the
coalition service like any other; the main task waits for a signal or for the service to stop,
and shuts down.

A state has the service with all its clients, the join loop and the main task, and they take
their steps in any order.  The time that passes between two ticks is not modelled.
-/

namespace Koalisi.Subsystems

open Koalisi.Lib Koalisi.Lib.Fallible Koalisi.Topology

variable {G V HE E Score : Type}

/-- The errors after which a service answers nothing else, or nothing that can be relied on. -/
def ServiceError.isTerminal : ServiceError E → Bool
  | .gone | .replyDropped | .cancelled | .panicked _ => true
  | .topology error =>
      match error with
      | .lockPoisoned | .taskCancelled => true
      | _ => false

/-! ## The join loop -/

/-- What the service made of a request. -/
abbrev Answer (E Score : Type) := Except (ServiceError E) (CoalitionReply Score)

/-- An answer that ends the loop. -/
def Answer.isTerminal (answer : Answer E Score) : Bool :=
  match answer with
  | .ok _ => false
  | .error error => error.isTerminal

/-- What is logged: an answer to an offer, or to a read of the members. -/
inductive OfferLog (E Score : Type) where
  | join (agent : VertexIndex) (reply : RequestId) (answer : Answer E Score)
  | members (reply : RequestId) (answer : Answer E Score)
deriving DecidableEq

namespace OfferLog

/-- The request that was answered, and what it was answered. -/
def answered : OfferLog E Score → RequestId × Answer E Score
  | .join _ reply answer => (reply, answer)
  | .members reply answer => (reply, answer)

/-- Whom the answer was about. -/
def agent : OfferLog E Score → Option VertexIndex
  | .join agent _ _ => some agent
  | .members _ _ => none

/-- Whether it ends the loop. -/
def isTerminal (entry : OfferLog E Score) : Bool := entry.answered.2.isTerminal

end OfferLog

/-- Where the join loop stands. -/
inductive LoopStage where
  /-- It waits for a cancel or for the clock. -/
  | waiting
  /-- It is about to send an offer. -/
  | offering (agent : VertexIndex)
  | joining (agent : VertexIndex) (reply : RequestId)
  /-- It is about to ask for the members. -/
  | asking
  | reading (reply : RequestId)
  | ended
deriving DecidableEq, Repr

/-- The join loop; the log is there for the theorems only. -/
structure JoinLoop (E Score : Type) where
  coalition : HyperedgeIndex
  candidates : List VertexIndex
  /-- How many candidates have been taken up. -/
  next : Nat
  stage : LoopStage
  log : List (OfferLog E Score)
deriving DecidableEq

namespace JoinLoop

def new (coalition : HyperedgeIndex) (candidates : List VertexIndex) : JoinLoop E Score where
  coalition
  candidates
  next := 0
  stage := .waiting
  log := []

/-- One turn of the select: a cancel comes first, and otherwise the clock has ticked. -/
def turn (cancelled : Bool) (loop : JoinLoop E Score) : JoinLoop E Score :=
  if cancelled then { loop with stage := .ended }
  else
    match loop.candidates[loop.next]? with
    -- all candidates have been offered
    | none => loop
    | some agent => { loop with next := loop.next + 1, stage := .offering agent }

/-- Go on after the answer to an offer. -/
def offered (agent : VertexIndex) (reply : RequestId) (answer : Answer E Score)
    (loop : JoinLoop E Score) : JoinLoop E Score :=
  { loop with
    log := loop.log ++ [.join agent reply answer]
    stage :=
      match answer with
      | .ok _ => .asking
      | .error error => if error.isTerminal then .ended else .waiting }

/-- Go on after the answer to a read. -/
def read (reply : RequestId) (answer : Answer E Score) (loop : JoinLoop E Score) :
    JoinLoop E Score :=
  { loop with
    log := loop.log ++ [.members reply answer]
    stage := if answer.isTerminal then .ended else .waiting }

end JoinLoop

/-! ## The main task -/

/-- Where the main task stands; `none` is a service that stopped before a signal came. -/
inductive MainStage where
  /-- It waits for a signal, or for the service to close. -/
  | waiting
  | signalled (signal : Option (Except String Unit))
  /-- The tokens are cancelled, and the tracked tasks have not all ended. -/
  | draining (signal : Option (Except String Unit))
  /-- It has returned, and logged further failures. -/
  | returned (signal : Option (Except String Unit)) (outcome : Except String Unit)
      (logged : List String)
deriving DecidableEq

/-- What failed, in the order in which it is looked for. -/
def failures (signal : Option (Except String Unit)) (panicked : Bool)
    (joinOutcome : Except String Unit) : List String :=
  (match signal with
    | some (.error e) => ["awaiting ctrl-c failed: " ++ e]
    | _ => []) ++
  (if panicked then ["coalition service panicked"] else []) ++
  (match joinOutcome with
    | .error e => ["join loop failed: " ++ e]
    | .ok _ => []) ++
  (if signal.isNone then ["coalition service stopped before ctrl-c"] else [])

/-- Return the first failure, and log the others. -/
def conclude : List String → Except String Unit × List String
  | [] => (.ok (), [])
  | first :: later => (.error first, later)

/-! ## The daemon -/

/-- The daemon, and the other clients of its service. -/
structure Daemon (G V HE E Score : Type) where
  service : CoalitionService G V HE E Score
  /-- The root token is cancelled. -/
  cancelled : Bool
  loop : JoinLoop E Score
  main : MainStage

/-- What can happen next. -/
inductive Daemon.Action (G V HE Score : Type) where
  /-- A step of the service task or of another client. -/
  | service (action : Service.Action (Owned G V HE Score) CoalitionCommand (Circumstances V Score))
  /-- The join loop takes a step. -/
  | loop
  /-- The signal has come, or waiting for it failed. -/
  | signal (signal : Except String Unit)
  /-- The main task sees that the service is closed. -/
  | closed
  /-- The main task cancels the tokens. -/
  | shutdown
  /-- All tracked tasks have ended. -/
  | drained

/-- Whether a client drops a handle. -/
def Service.Action.drops {W Cmd O : Type} : Service.Action W Cmd O → Bool
  | .dropHandle => true
  | _ => false

namespace Daemon

/-- The service is spawned, with a handle for the main task and one for the join loop. -/
def start (own : Owned G V HE Score) (coalition : HyperedgeIndex)
    (candidates : List VertexIndex) : Daemon G V HE E Score where
  service := { Service.spawn own with handles := 2 }
  cancelled := false
  loop := .new coalition candidates
  main := .waiting

/-- The handles that the main task and the join loop hold. -/
def held (d : Daemon G V HE E Score) : Nat := if d.loop.stage = .ended then 1 else 2

/-- Send a request of the join loop. -/
def send (d : Daemon G V HE E Score) (cmd : CoalitionCommand) (stage : RequestId → LoopStage) :
    Option (Daemon G V HE E Score) :=
  (d.service.request cmd).map fun service ↦
    { d with service, loop := { d.loop with stage := stage d.service.next } }

/-- The join loop goes on; if it ends, it drops its handle. -/
def proceed (d : Daemon G V HE E Score) (loop : JoinLoop E Score) : Daemon G V HE E Score :=
  { d with
    loop
    service :=
      if loop.stage = .ended then { d.service with handles := d.service.handles - 1 }
      else d.service }

/-- One step of the join loop. -/
def loopStep (d : Daemon G V HE E Score) : Option (Daemon G V HE E Score) :=
  match d.loop.stage with
  | .waiting => some (d.proceed (d.loop.turn d.cancelled))
  | .offering agent => d.send (.join agent d.loop.coalition) (.joining agent)
  | .joining agent reply =>
      -- it waits until there is an answer
      (d.service.outcomes.lookup reply).map fun answer ↦
        d.proceed (d.loop.offered agent reply answer)
  | .asking => d.send (.members d.loop.coalition) .reading
  | .reading reply =>
      (d.service.outcomes.lookup reply).map fun answer ↦ d.proceed (d.loop.read reply answer)
  | .ended => none

variable [Hypergraph G V HE E] [Zero Score]

/-- One step of the daemon. -/
def step (d : Daemon G V HE E Score) : Action G V HE Score → Option (Daemon G V HE E Score)
  | .service action =>
      -- the daemon keeps its own handles
      if action.drops ∧ d.service.handles ≤ d.held then none
      else (d.service.step catchUnwind action).map fun service ↦ { d with service }
  | .loop => d.loopStep
  | .signal signal =>
      match d.main with
      | .waiting => some { d with main := .signalled (some signal) }
      | _ => none
  | .closed =>
      match d.main with
      | .waiting => if d.service.rx.closed then some { d with main := .signalled none } else none
      | _ => none
  | .shutdown =>
      match d.main with
      | .signalled signal => some
          { d with
            service := { d.service with cancelled := true }
            cancelled := true
            main := .draining signal }
      | _ => none
  | .drained =>
      match d.main with
      | .draining signal =>
          if d.service.task.isStopped ∧ d.loop.stage = .ended then
            -- nothing in the join loop panics
            let (outcome, logged) := conclude (failures signal d.service.panicked (.ok ()))
            some { d with main := .returned signal outcome logged }
          else none
      | _ => none

/-- A run. -/
def run (actions : List (Action G V HE Score)) (d : Daemon G V HE E Score) :
    Option (Daemon G V HE E Score) := actions.foldlM step d

end Daemon

/-! ## What a step can do -/

namespace Daemon

section Moves

variable [Hypergraph G V HE E] [Zero Score]

/-- What a step can do. -/
inductive Moves (d : Daemon G V HE E Score) : Action G V HE Score → Daemon G V HE E Score → Prop
  | service {action service} : Service.Moves catchUnwind d.service action service →
      Moves d (.service action) { d with service }
  | turn : d.loop.stage = .waiting → Moves d .loop (d.proceed (d.loop.turn d.cancelled))
  | offers {agent service} : d.loop.stage = .offering agent →
      Service.Moves catchUnwind d.service (.request (.join agent d.loop.coalition)) service →
      d.service.next ∈ service.places →
      Moves d .loop
        { d with service, loop := { d.loop with stage := .joining agent d.service.next } }
  | asks {service} : d.loop.stage = .asking →
      Service.Moves catchUnwind d.service (.request (.members d.loop.coalition)) service →
      d.service.next ∈ service.places →
      Moves d .loop { d with service, loop := { d.loop with stage := .reading d.service.next } }
  | offered {agent reply answer} : d.loop.stage = .joining agent reply →
      (reply, answer) ∈ d.service.outcomes →
      Moves d .loop (d.proceed (d.loop.offered agent reply answer))
  | read {reply answer} : d.loop.stage = .reading reply → (reply, answer) ∈ d.service.outcomes →
      Moves d .loop (d.proceed (d.loop.read reply answer))
  | signal {signal} : d.main = .waiting →
      Moves d (.signal signal) { d with main := .signalled (some signal) }
  | closed : d.main = .waiting → d.service.rx.closed = true →
      Moves d .closed { d with main := .signalled none }
  | shutdown {signal} : d.main = .signalled signal →
      Moves d .shutdown
        { d with
          service := { d.service with cancelled := true }
          cancelled := true
          main := .draining signal }
  | drained {signal outcome logged} : d.main = .draining signal → d.service.task = .stopped →
      d.loop.stage = .ended →
      conclude (failures signal d.service.panicked (.ok ())) = (outcome, logged) →
      Moves d .drained { d with main := .returned signal outcome logged }

variable {d d' : Daemon G V HE E Score} {a : Action G V HE Score}

theorem mem_of_lookup {α β : Type} [BEq α] [LawfulBEq α] {l : List (α × β)} {k : α} {v : β}
    (h : l.lookup k = some v) : (k, v) ∈ l := by
  obtain ⟨front, rest, rfl, -⟩ := List.lookup_eq_some_iff.mp h
  exact List.mem_append_right _ List.mem_cons_self

/-- A request that is sent is somewhere. -/
theorem next_mem_places {service service' : CoalitionService G V HE E Score}
    {cmd : CoalitionCommand} (h : service.request cmd = some service') :
    service.next ∈ service'.places := by
  have hnext : service'.next = service.next + 1 := by
    unfold Service.request at h
    split at h
    · cases h
      rfl
    · cases h
      rfl
    · cases h
  have hmoves : Service.Moves (O := Circumstances V Score) catchUnwind service (.request cmd)
      service' := Service.moves_of_request h
  rcases hmoves.places with
    ⟨-, hsame, -⟩ | ⟨hperm, -, -⟩
  · rw [hnext] at hsame
    exact absurd hsame (Nat.succ_ne_self _)
  · exact hperm.mem_iff.mpr List.mem_cons_self

theorem moves_of_loopStep (h : d.loopStep = some d') : Moves d .loop d' := by
  unfold loopStep at h
  cases hstage : d.loop.stage with
  | waiting =>
      rw [hstage] at h
      cases h
      exact .turn hstage
  | offering agent =>
      rw [hstage] at h
      obtain ⟨service, hrequest, rfl⟩ := Option.map_eq_some_iff.mp h
      exact .offers hstage (Service.moves_of_request hrequest) (next_mem_places hrequest)
  | joining agent reply =>
      rw [hstage] at h
      obtain ⟨answer, hanswer, rfl⟩ := Option.map_eq_some_iff.mp h
      exact .offered hstage (mem_of_lookup hanswer)
  | asking =>
      rw [hstage] at h
      obtain ⟨service, hrequest, rfl⟩ := Option.map_eq_some_iff.mp h
      exact .asks hstage (Service.moves_of_request hrequest) (next_mem_places hrequest)
  | reading reply =>
      rw [hstage] at h
      obtain ⟨answer, hanswer, rfl⟩ := Option.map_eq_some_iff.mp h
      exact .read hstage (mem_of_lookup hanswer)
  | ended =>
      rw [hstage] at h
      cases h

theorem moves_of_step (h : d.step a = some d') : Moves d a d' := by
  cases a with
  | service action =>
      rw [step] at h
      split at h
      · cases h
      · obtain ⟨service, hstep, rfl⟩ := Option.map_eq_some_iff.mp h
        exact .service (Service.moves_of_step hstep)
  | loop => exact moves_of_loopStep h
  | signal signal =>
      rw [step] at h
      split at h
      · next hmain =>
          cases h
          exact .signal hmain
      · cases h
  | closed =>
      rw [step] at h
      split at h
      · next hmain =>
          split at h
          · next hclosed =>
              cases h
              exact .closed hmain hclosed
          · cases h
      · cases h
  | shutdown =>
      rw [step] at h
      split at h
      · next signal hmain =>
          cases h
          exact .shutdown hmain
      · cases h
  | drained =>
      rw [step] at h
      split at h
      · next signal hmain =>
          split at h
          · next hended =>
              cases h
              refine .drained hmain ?_ hended.2 rfl
              cases htask : d.service.task with
              | stopped => rfl
              | _ =>
                  have hstopped := hended.1
                  rw [htask] at hstopped
                  cases hstopped
          · cases h
      · cases h

end Moves

/-! ## What the service does -/

/-- The steps of the service task in an action. -/
def Action.polls : Action G V HE Score → Nat
  | .service action => action.polls
  | _ => 0

section Service

variable [Hypergraph G V HE E] [Zero Score]
variable {d d' : Daemon G V HE E Score} {a : Action G V HE Score} {loop : JoinLoop E Score}

theorem proceed_service : (d.proceed loop).service = d.service ∨
    Service.Moves catchUnwind d.service
      (.dropHandle : Service.Action _ _ (Circumstances V Score)) (d.proceed loop).service := by
  unfold proceed
  split
  · exact Or.inr (.handles (Or.inr rfl))
  · exact Or.inl rfl

/-- The service stays as it is or makes a move of its own. -/
theorem Moves.served (h : Moves d a d') : d'.service = d.service ∧ a.polls = 0 ∨
    ∃ b, Service.Moves catchUnwind d.service b d'.service ∧ b.polls = a.polls := by
  have hproceed : ∀ loop, a.polls = 0 → d' = d.proceed loop →
      d'.service = d.service ∧ a.polls = 0 ∨
        ∃ b, Service.Moves catchUnwind d.service b d'.service ∧ b.polls = a.polls := by
    rintro loop hpolls rfl
    exact proceed_service.imp (fun heq ↦ ⟨heq, hpolls⟩)
      fun hmoves ↦ ⟨.dropHandle, hmoves, hpolls.symm⟩
  cases h with
  | service hmoves => exact Or.inr ⟨_, hmoves, rfl⟩
  | turn => exact hproceed _ rfl rfl
  | offers _ hmoves => exact Or.inr ⟨_, hmoves, rfl⟩
  | asks _ hmoves => exact Or.inr ⟨_, hmoves, rfl⟩
  | offered => exact hproceed _ rfl rfl
  | read => exact hproceed _ rfl rfl
  | signal => exact Or.inl ⟨rfl, rfl⟩
  | closed => exact Or.inl ⟨rfl, rfl⟩
  | shutdown => exact Or.inr ⟨_, .cancel, rfl⟩
  | drained => exact Or.inl ⟨rfl, rfl⟩

/-- What a move of the service keeps, a step of the daemon keeps. -/
theorem Moves.keeps_service {P : CoalitionService G V HE E Score → Prop} (h : Moves d a d')
    (hP : ∀ b s, Service.Moves (O := Circumstances V Score) catchUnwind d.service b s → P s)
    (hd : P d.service) : P d'.service := by
  rcases h.served with ⟨heq, -⟩ | ⟨b, hmoves, -⟩
  · rw [heq]
    exact hd
  · exact hP b _ hmoves

end Service

end Daemon

namespace Service

section Subsets

variable {W Cmd Rep O : Type}
variable {work : O → Cmd → W → Except String (Except (TemporalError E) Rep) × W}
variable {s s' : Service W Cmd Rep E} {a : Action W Cmd O}

/-- What became of a request stays on record. -/
theorem Moves.outcomes_subset (h : Moves work s a s') : s.outcomes ⊆ s'.outcomes := by
  cases h with
  | gone | replied | report | refuse | drop => exact List.subset_append_left _ _
  | _ => exact List.Subset.refl _

/-- No request is lost. -/
theorem Moves.places_subset (h : Moves work s a s') : s.places ⊆ s'.places := by
  rcases h.places with ⟨hsame, -, -⟩ | ⟨hperm, -, -⟩
  · rw [hsame]
    exact List.Subset.refl _
  · exact fun reply hreply ↦ hperm.mem_iff.mpr (List.mem_cons_of_mem _ hreply)

/-- A task that has stopped stays so, and so does the flag. -/
theorem Moves.stopped (h : Moves work s a s') (ht : s.task = .stopped) :
    s'.task = .stopped ∧ s'.panicked = s.panicked := by
  cases h with
  | seeCancel hs | passToken hs | take hs | abandoned hs | wait hs | worked hs | panics hs
  | replied hs | flag hs | report hs | closes hs | refuse hs | drop hs =>
      rw [ht] at hs
      cases hs
  | stop => exact ⟨rfl, rfl⟩
  | _ => exact ⟨ht, rfl⟩

end Subsets

end Service

/-! ## What holds throughout a run -/

/-- The candidate that is being offered. -/
def LoopStage.offer : LoopStage → Option VertexIndex
  | .offering agent => some agent
  | .joining agent _ => some agent
  | _ => none

/-- The request that the loop waits for. -/
def LoopStage.awaited : LoopStage → Option RequestId
  | .joining _ reply => some reply
  | .reading reply => some reply
  | _ => none

namespace JoinLoop

variable (loop : JoinLoop E Score) (agent : VertexIndex) (reply : RequestId)

/-- After an answer nobody is being offered and nothing is waited for, and the loop has ended if
the answer is terminal. -/
theorem stage_offered (answer : Answer E Score) :
    (loop.offered agent reply answer).stage.offer = none ∧
      (loop.offered agent reply answer).stage.awaited = none ∧
      ((loop.offered agent reply answer).stage = .ended ↔ answer.isTerminal = true) := by
  cases answer with
  | ok rep => exact ⟨rfl, rfl, iff_of_false (fun h ↦ by cases h) fun h ↦ by cases h⟩
  | error error =>
      dsimp only [offered, Answer.isTerminal]
      cases error.isTerminal with
      | true => exact ⟨rfl, rfl, iff_of_true rfl rfl⟩
      | false => exact ⟨rfl, rfl, iff_of_false (fun h ↦ by cases h) Bool.false_ne_true⟩

theorem stage_read (answer : Answer E Score) :
    (loop.read reply answer).stage.offer = none ∧
      (loop.read reply answer).stage.awaited = none ∧
      ((loop.read reply answer).stage = .ended ↔ answer.isTerminal = true) := by
  unfold read
  cases Answer.isTerminal answer with
  | true => exact ⟨rfl, rfl, iff_of_true rfl rfl⟩
  | false => exact ⟨rfl, rfl, iff_of_false (fun h ↦ by cases h) Bool.false_ne_true⟩

end JoinLoop

namespace Daemon

/-- What holds of the join loop. -/
structure LoopKeeps (coalition : HyperedgeIndex) (candidates : List VertexIndex)
    (d : Daemon G V HE E Score) : Prop where
  target : d.loop.coalition = coalition
  pool : d.loop.candidates = candidates
  /-- The candidates taken up are those with an answer, and the one that is being offered. -/
  offered : d.loop.log.filterMap OfferLog.agent ++ d.loop.stage.offer.toList =
    candidates.take d.loop.next
  told : ∀ entry ∈ d.loop.log, entry.answered ∈ d.service.outcomes
  pending : ∀ reply, d.loop.stage.awaited = some reply → reply ∈ d.service.places
  /-- It ends on a cancel or on a terminal answer. -/
  stops : d.loop.stage = .ended → d.cancelled = true ∨
    ∃ entry, d.loop.log.getLast? = some entry ∧ entry.isTerminal = true
  goesOn : ∀ entry ∈ d.loop.log, entry.isTerminal = true → d.loop.stage = .ended

/-- What holds of the main task. -/
def MainKeeps (d : Daemon G V HE E Score) : Prop :=
  match d.main with
  | .waiting => d.cancelled = false
  | .signalled _ => d.cancelled = false
  | .draining _ => d.cancelled = true
  | .returned signal outcome logged =>
      d.cancelled = true ∧ d.service.task = .stopped ∧ d.loop.stage = .ended ∧
        conclude (failures signal d.service.panicked (.ok ())) = (outcome, logged)

/-- What holds throughout a run. -/
structure Keeps (coalition : HyperedgeIndex) (candidates : List VertexIndex)
    (d : Daemon G V HE E Score) : Prop where
  service : d.service.Sound
  goneClosed : d.service.GoneClosed
  rooted : d.cancelled = true → d.service.cancelled = true
  loop : d.LoopKeeps coalition candidates
  main : d.MainKeeps

section Keeps

variable [Hypergraph G V HE E] [Zero Score]
variable {d d' : Daemon G V HE E Score} {a : Action G V HE Score}
variable {coalition : HyperedgeIndex} {candidates : List VertexIndex}

theorem keeps_start (own : Owned G V HE Score) :
    (start own coalition candidates : Daemon G V HE E Score).Keeps coalition candidates where
  service := by
    have hmoves : Service.Moves catchUnwind (Service.spawn own) .cloneHandle
        (start own coalition candidates : Daemon G V HE E Score).service := .handles (Or.inl rfl)
    exact Service.Sound.move (Service.sound_spawn own) hmoves
  goneClosed _ h := absurd h List.not_mem_nil
  rooted h := by cases h
  loop :=
    { target := rfl
      pool := rfl
      offered := rfl
      told := fun _ h ↦ absurd h List.not_mem_nil
      pending := fun _ h ↦ by cases h
      stops := fun h ↦ by cases h
      goesOn := fun _ h ↦ absurd h List.not_mem_nil }
  main := rfl

omit [Hypergraph G V HE E] [Zero Score] in
/-- While the loop stands still, nothing it has been told is taken back. -/
theorem LoopKeeps.still (h : d.LoopKeeps coalition candidates) (hloop : d'.loop = d.loop)
    (hcancelled : d.cancelled = true → d'.cancelled = true)
    (houtcomes : d.service.outcomes ⊆ d'.service.outcomes)
    (hplaces : d.service.places ⊆ d'.service.places) : d'.LoopKeeps coalition candidates := by
  refine ⟨?_, ?_, ?_, ?_, ?_, ?_, ?_⟩
  · rw [hloop]
    exact h.target
  · rw [hloop]
    exact h.pool
  · rw [hloop]
    exact h.offered
  · rw [hloop]
    exact fun entry hentry ↦ houtcomes (h.told entry hentry)
  · rw [hloop]
    exact fun reply hreply ↦ hplaces (h.pending reply hreply)
  · rw [hloop]
    exact fun hended ↦ (h.stops hended).imp_left hcancelled
  · rw [hloop]
    exact h.goesOn

omit [Hypergraph G V HE E] [Zero Score] in
/-- The loop takes up the next candidate, idles or sees the cancel. -/
theorem LoopKeeps.turn (h : d.LoopKeeps coalition candidates) (hstage : d.loop.stage = .waiting) :
    (d.proceed (d.loop.turn d.cancelled)).LoopKeeps coalition candidates := by
  have hoffered := h.offered
  rw [hstage, show LoopStage.waiting.offer.toList = [] from rfl, List.append_nil] at hoffered
  have hgoesOn : ∀ entry ∈ d.loop.log, entry.isTerminal ≠ true := by
    intro entry hentry hterminal
    have hended := h.goesOn entry hentry hterminal
    rw [hstage] at hended
    cases hended
  unfold JoinLoop.turn
  split
  · next hcancelled =>
      exact {
        target := h.target
        pool := h.pool
        offered := (List.append_nil _).trans hoffered
        told := h.told
        pending := fun _ hreply ↦ by cases hreply
        stops := fun _ ↦ Or.inl hcancelled
        goesOn := fun _ _ _ ↦ rfl }
  · split
    · have hsame : d.proceed d.loop = d := by
        unfold proceed
        rw [if_neg (by rw [hstage]; exact LoopStage.noConfusion)]
      rw [hsame]
      exact h
    · next agent hagent =>
        rw [h.pool] at hagent
        exact {
          target := h.target
          pool := h.pool
          offered := by
            change d.loop.log.filterMap OfferLog.agent ++ [agent] =
              candidates.take (d.loop.next + 1)
            rw [List.take_add_one, hagent, hoffered]
            rfl
          told := h.told
          pending := fun _ hreply ↦ by cases hreply
          stops := fun hended ↦ by cases hended
          goesOn := fun entry hentry hterminal ↦ absurd hterminal (hgoesOn entry hentry) }

omit [Hypergraph G V HE E] [Zero Score] in
/-- The loop is told what became of its request. -/
theorem LoopKeeps.append (h : d.LoopKeeps coalition candidates) {loop : JoinLoop E Score}
    (entry : OfferLog E Score) (hfixed : loop.coalition = d.loop.coalition ∧
      loop.candidates = d.loop.candidates ∧ loop.next = d.loop.next)
    (hlog : loop.log = d.loop.log ++ [entry]) (hstage : d.loop.stage ≠ .ended)
    (hoffer : entry.agent.toList ++ loop.stage.offer.toList = d.loop.stage.offer.toList)
    (hawaited : loop.stage.awaited = none) (htold : entry.answered ∈ d.service.outcomes)
    (hended : loop.stage = .ended ↔ entry.isTerminal = true) :
    (d.proceed loop).LoopKeeps coalition candidates := by
  have houtcomes : (d.proceed loop).service.outcomes = d.service.outcomes := by
    unfold proceed
    split
    · rfl
    · rfl
  refine ⟨hfixed.1.trans h.target, hfixed.2.1.trans h.pool, ?_, ?_, ?_, ?_, ?_⟩
  · change loop.log.filterMap OfferLog.agent ++ loop.stage.offer.toList = candidates.take loop.next
    rw [hlog, hfixed.2.2, ← h.offered, ← hoffer, List.filterMap_append, List.append_assoc]
    cases hagent : entry.agent with
    | none => simp [hagent]
    | some agent => simp [hagent]
  · intro entry' hentry'
    rw [houtcomes]
    rcases List.mem_append.mp (hlog ▸ hentry' : entry' ∈ d.loop.log ++ [entry]) with hold | hnew
    · exact h.told entry' hold
    · rw [List.mem_singleton.mp hnew]
      exact htold
  · intro reply hreply
    cases hawaited.symm.trans hreply
  · intro hstop
    refine Or.inr ⟨entry, ?_, hended.mp hstop⟩
    change loop.log.getLast? = some entry
    rw [hlog, List.getLast?_concat]
  · intro entry' hentry' hterminal
    rcases List.mem_append.mp (hlog ▸ hentry' : entry' ∈ d.loop.log ++ [entry]) with hold | hnew
    · exact absurd (h.goesOn entry' hold hterminal) hstage
    · rw [List.mem_singleton.mp hnew] at hterminal
      exact hended.mpr hterminal

omit [Hypergraph G V HE E] [Zero Score] in
/-- The loop has sent a request, and waits for the answer. -/
theorem LoopKeeps.sends (h : d.LoopKeeps coalition candidates)
    {service : CoalitionService G V HE E Score} {stage : LoopStage}
    (houtcomes : d.service.outcomes ⊆ service.outcomes) (hplaces : d.service.next ∈ service.places)
    (hstage : d.loop.stage ≠ .ended) (hoffer : stage.offer = d.loop.stage.offer)
    (hawaited : stage.awaited = some d.service.next) :
    LoopKeeps coalition candidates
      { d with service, loop := { d.loop with stage } } := by
  refine ⟨h.target, h.pool, ?_, fun entry hentry ↦ houtcomes (h.told entry hentry), ?_, ?_, ?_⟩
  · rw [hoffer]
    exact h.offered
  · intro reply hreply
    rw [hawaited] at hreply
    rw [← Option.some.inj hreply]
    exact hplaces
  · intro hended
    rw [show stage = .ended from hended] at hawaited
    cases hawaited
  · exact fun entry hentry hterminal ↦ absurd (h.goesOn entry hentry hterminal) hstage

theorem Keeps.loop_move (h : d.Keeps coalition candidates) (hmoves : Moves d a d') :
    d'.LoopKeeps coalition candidates := by
  cases hmoves with
  | service hservice =>
      exact h.loop.still rfl id hservice.outcomes_subset hservice.places_subset
  | turn hstage => exact h.loop.turn hstage
  | offers hstage hservice hnext =>
      refine h.loop.sends hservice.outcomes_subset hnext ?_ ?_ rfl
      · rw [hstage]
        exact LoopStage.noConfusion
      · rw [hstage]
        rfl
  | asks hstage hservice hnext =>
      refine h.loop.sends hservice.outcomes_subset hnext ?_ ?_ rfl
      · rw [hstage]
        exact LoopStage.noConfusion
      · rw [hstage]
        rfl
  | @offered agent reply answer hstage htold =>
      obtain ⟨hoffer, hawaited, hended⟩ := d.loop.stage_offered agent reply answer
      refine h.loop.append (.join agent reply answer) ⟨rfl, rfl, rfl⟩ rfl ?_ ?_ hawaited
        htold hended
      · rw [hstage]
        exact LoopStage.noConfusion
      · rw [hoffer, hstage]
        rfl
  | @read reply answer hstage htold =>
      obtain ⟨hoffer, hawaited, hended⟩ := d.loop.stage_read reply answer
      refine h.loop.append (.members reply answer) ⟨rfl, rfl, rfl⟩ rfl ?_ ?_ hawaited
        htold hended
      · rw [hstage]
        exact LoopStage.noConfusion
      · rw [hoffer, hstage]
        rfl
  | signal => exact h.loop.still rfl id (List.Subset.refl _) (List.Subset.refl _)
  | closed => exact h.loop.still rfl id (List.Subset.refl _) (List.Subset.refl _)
  | shutdown => exact h.loop.still rfl (fun _ ↦ rfl) (List.Subset.refl _) (List.Subset.refl _)
  | drained => exact h.loop.still rfl id (List.Subset.refl _) (List.Subset.refl _)

omit [Hypergraph G V HE E] [Zero Score] in
/-- While the loop has not ended, the main task has not returned. -/
theorem MainKeeps.loop (h : d.MainKeeps) (hstage : d.loop.stage ≠ .ended)
    (hmain : d'.main = d.main) (hcancelled : d'.cancelled = d.cancelled) : d'.MainKeeps := by
  unfold MainKeeps at h ⊢
  rw [hmain, hcancelled]
  cases hd : d.main with
  | returned signal outcome logged =>
      rw [hd] at h
      exact absurd h.2.2.1 hstage
  | _ =>
      rw [hd] at h
      exact h

omit [Hypergraph G V HE E] [Zero Score] in
/-- The service does not do anything any more when the main task has returned. -/
theorem MainKeeps.service (h : d.MainKeeps) {service : CoalitionService G V HE E Score}
    (hstopped : d.service.task = .stopped →
      service.task = .stopped ∧ service.panicked = d.service.panicked) :
    MainKeeps { d with service } := by
  unfold MainKeeps at h ⊢
  cases hd : d.main with
  | returned signal outcome logged =>
      rw [hd] at h
      obtain ⟨hcancelled, htask, hended, houtcome⟩ := h
      obtain ⟨htask', hpanicked⟩ := hstopped htask
      refine ⟨hcancelled, htask', hended, ?_⟩
      rw [hpanicked]
      exact houtcome
  | _ =>
      rw [hd] at h
      exact h

theorem Keeps.main_move (h : d.Keeps coalition candidates) (hmoves : Moves d a d') :
    d'.MainKeeps := by
  have hmain := h.main
  have hloop : ∀ stage, d.loop.stage = stage → stage ≠ .ended → d'.main = d.main →
      d'.cancelled = d.cancelled → d'.MainKeeps :=
    fun stage hstage hne ↦ hmain.loop (hstage ▸ hne)
  cases hmoves with
  | service hservice => exact hmain.service hservice.stopped
  | turn hstage => exact hloop _ hstage LoopStage.noConfusion rfl rfl
  | offers hstage => exact hloop _ hstage LoopStage.noConfusion rfl rfl
  | asks hstage => exact hloop _ hstage LoopStage.noConfusion rfl rfl
  | offered hstage => exact hloop _ hstage LoopStage.noConfusion rfl rfl
  | read hstage => exact hloop _ hstage LoopStage.noConfusion rfl rfl
  | signal hwaiting =>
      rw [MainKeeps, hwaiting] at hmain
      exact hmain
  | closed hwaiting =>
      rw [MainKeeps, hwaiting] at hmain
      exact hmain
  | shutdown => rfl
  | drained hdraining hstopped hended houtcome =>
      rw [MainKeeps, hdraining] at hmain
      exact ⟨hmain, hstopped, hended, houtcome⟩

theorem Keeps.rooted_move (h : d.Keeps coalition candidates) (hmoves : Moves d a d') :
    d'.cancelled = true → d'.service.cancelled = true := by
  have hservice : d.service.cancelled = true → d'.service.cancelled = true :=
    hmoves.keeps_service (P := fun s ↦ d.service.cancelled = true → s.cancelled = true)
      (fun b s hs ↦ hs.cancelled) id
  cases hmoves with
  | shutdown => exact fun _ ↦ rfl
  | _ => exact fun hcancelled ↦ hservice (h.rooted hcancelled)

/-- A step keeps what holds throughout a run. -/
theorem Keeps.move (h : d.Keeps coalition candidates) (hmoves : Moves d a d') :
    d'.Keeps coalition candidates where
  service := hmoves.keeps_service (fun _ _ hs ↦ h.service.move hs) h.service
  goneClosed := hmoves.keeps_service (fun _ _ hs ↦ h.goneClosed.move hs) h.goneClosed
  rooted := h.rooted_move hmoves
  loop := h.loop_move hmoves
  main := h.main_move hmoves

theorem Keeps.after_run {actions : List (Action G V HE Score)} (h : d.Keeps coalition candidates)
    (hrun : run actions d = some d') : d'.Keeps coalition candidates :=
  foldlM_inv (fun _ _ _ _ hd hstep ↦ hd.move (moves_of_step hstep)) h hrun

/-- A cancel is not taken back. -/
theorem Moves.cancelled (h : Moves d a d') (hc : d.cancelled = true) : d'.cancelled = true := by
  cases h with
  | shutdown => rfl
  | _ => exact hc

end Keeps

/-! ## Shutting down -/

end Daemon

/-- How many steps the loop has left at most, once it is cancelled. -/
def LoopStage.stopSteps : LoopStage → Nat
  | .offering _ => 5
  | .joining _ _ => 4
  | .asking => 3
  | .reading _ => 2
  | .waiting => 1
  | .ended => 0

/-- How many steps the main task has left. -/
def MainStage.stopSteps : MainStage → Nat
  | .waiting => 3
  | .signalled _ => 2
  | .draining _ => 1
  | .returned _ _ _ => 0

namespace JoinLoop

variable (loop : JoinLoop E Score) (agent : VertexIndex) (reply : RequestId)

theorem stopSteps_offered (answer : Answer E Score) :
    (loop.offered agent reply answer).stage.stopSteps ≤ 3 := by
  cases answer with
  | ok rep => exact Nat.le_refl _
  | error error =>
      dsimp only [offered]
      cases error.isTerminal with
      | true => exact Nat.zero_le _
      | false => exact Nat.le_of_ble_eq_true rfl

theorem stopSteps_read (answer : Answer E Score) :
    (loop.read reply answer).stage.stopSteps ≤ 1 := by
  dsimp only [read]
  cases Answer.isTerminal answer with
  | true => exact Nat.zero_le _
  | false => exact Nat.le_refl _

end JoinLoop

namespace Daemon

/-- How many steps the tasks of the daemon have left at most, once it shuts down. -/
def stopSteps (d : Daemon G V HE E Score) : Nat :=
  d.service.stopSteps + d.loop.stage.stopSteps + d.main.stopSteps

/-- The steps of the daemon's own tasks. -/
def Action.own : Action G V HE Score → Nat
  | .service action => action.polls
  | _ => 1

/-- No shutdown takes longer. -/
def shutdownSteps : Nat := commandCapacity + 12

section Shutdown

variable [Hypergraph G V HE E] [Zero Score]
variable {d d' : Daemon G V HE E Score} {a : Action G V HE Score}
variable {coalition : HyperedgeIndex} {candidates : List VertexIndex}

omit [Hypergraph G V HE E] [Zero Score] in
theorem Keeps.stopSteps_le (h : d.Keeps coalition candidates) (hc : d.cancelled = true) :
    d.stopSteps ≤ shutdownSteps := by
  have hservice := h.service.stopSteps_le
  have hloop : d.loop.stage.stopSteps ≤ 5 := by
    cases d.loop.stage <;> simp [LoopStage.stopSteps]
  have hmain : d.main.stopSteps ≤ 1 := by
    have hmain := h.main
    unfold MainKeeps at hmain
    cases hd : d.main with
    | waiting | signalled signal =>
        rw [hd] at hmain
        cases hmain.symm.trans hc
    | draining signal => exact Nat.le_refl _
    | returned signal outcome logged => exact Nat.zero_le _
  unfold stopSteps shutdownSteps
  omega

/-- Each step of the daemon is one less to go, and nobody else adds one. -/
theorem Keeps.stopSteps_move (h : d.Keeps coalition candidates) (hmoves : Moves d a d')
    (hc : d.cancelled = true) : d'.stopSteps + a.own ≤ d.stopSteps := by
  have hservice : d'.service.stopSteps + a.polls ≤ d.service.stopSteps := by
    rcases hmoves.served with ⟨heq, hpolls⟩ | ⟨b, hservice, hpolls⟩
    · rw [heq, hpolls]
      exact Nat.le_refl _
    · rw [← hpolls]
      exact h.service.stopSteps_move hservice (h.rooted hc)
  have hmain := h.main
  unfold MainKeeps at hmain
  unfold stopSteps
  cases hmoves with
  | service =>
      dsimp only [Action.own, Action.polls] at hservice ⊢
      omega
  | turn hstage =>
      have hended : (d.loop.turn d.cancelled).stage = .ended := by
        rw [hc]
        rfl
      simp only [proceed, hended, hstage, LoopStage.stopSteps, Action.own, Action.polls]
        at hservice ⊢
      omega
  | offers hstage | asks hstage =>
      simp only [hstage, LoopStage.stopSteps, Action.own, Action.polls] at hservice ⊢
      omega
  | @offered agent reply answer hstage =>
      have hbefore : d.loop.stage.stopSteps = 4 := congrArg LoopStage.stopSteps hstage
      have hafter := d.loop.stopSteps_offered agent reply answer
      simp only [proceed, Action.own, Action.polls] at hservice ⊢
      omega
  | @read reply answer hstage =>
      have hbefore : d.loop.stage.stopSteps = 2 := congrArg LoopStage.stopSteps hstage
      have hafter := d.loop.stopSteps_read reply answer
      simp only [proceed, Action.own, Action.polls] at hservice ⊢
      omega
  | signal hstage | closed hstage | shutdown hstage =>
      rw [hstage] at hmain
      cases hmain.symm.trans hc
  | drained hstage =>
      simp only [hstage, MainStage.stopSteps, Action.own, Action.polls] at hservice ⊢
      omega

/-- Shutting down takes so many steps at most. -/
theorem Keeps.stopSteps_run {actions : List (Action G V HE Score)}
    (h : d.Keeps coalition candidates) (hc : d.cancelled = true)
    (hrun : run actions d = some d') :
    d'.stopSteps + (actions.map Action.own).sum ≤ d.stopSteps := by
  induction actions generalizing d with
  | nil =>
      cases hrun
      exact Nat.le_refl _
  | cons a actions ih =>
      obtain ⟨mid, hstep, hrest⟩ := Option.bind_eq_some_iff.mp hrun
      have hmoves := moves_of_step hstep
      have hle := h.stopSteps_move hmoves hc
      have hle' := ih (h.move hmoves) (hmoves.cancelled hc) hrest
      rw [List.map_cons, List.sum_cons]
      omega

omit [Hypergraph G V HE E] [Zero Score] in
/-- A request that was sent to a task that has stopped has been answered. -/
theorem Keeps.lookup_isSome (h : d.Keeps coalition candidates)
    (hstopped : d.service.task = .stopped) {reply : RequestId}
    (hreply : d.loop.stage.awaited = some reply) :
    ∃ answer, d.service.outcomes.lookup reply = some answer := by
  have hanswered : reply ∈ d.service.answered := by
    rcases Service.mem_places.mp (h.loop.pending reply hreply) with hanswered | hhand | hqueued
    · exact hanswered
    · rw [Service.inHand, hstopped] at hhand
      cases hhand
    · rw [Service.queued, h.service.idle hstopped] at hqueued
      cases hqueued
  obtain ⟨outcome, houtcome, hfst⟩ := List.mem_map.mp hanswered
  refine Option.isSome_iff_exists.mp (List.lookup_isSome_iff.mpr ⟨outcome, houtcome, ?_⟩)
  rw [hfst]
  exact beq_self_eq_true reply

omit [Hypergraph G V HE E] [Zero Score] in
/-- A task that has stopped refuses what is sent. -/
theorem Keeps.request_isSome (h : d.Keeps coalition candidates)
    (hstopped : d.service.task = .stopped) (cmd : CoalitionCommand) :
    ∃ service, d.service.request cmd = some service := by
  have hclosed : d.service.rx.closed = true := by
    have hstands := h.service.stands
    rw [hstopped] at hstands
    exact hstands.1
  refine ⟨{ d.service.answer d.service.next (.error .gone) with next := d.service.next + 1 }, ?_⟩
  unfold Service.request Channel.trySend
  rw [if_pos hclosed]

omit [Hypergraph G V HE E] [Zero Score] in
/-- When the service has stopped, the loop need not wait. -/
theorem Keeps.loopStep_isSome (h : d.Keeps coalition candidates)
    (hstopped : d.service.task = .stopped) (hstage : d.loop.stage ≠ .ended) :
    ∃ d', d.loopStep = some d' := by
  unfold loopStep
  cases hd : d.loop.stage with
  | waiting => exact ⟨_, rfl⟩
  | offering agent =>
      obtain ⟨service, hservice⟩ := h.request_isSome hstopped (.join agent d.loop.coalition)
      dsimp only [send]
      rw [hservice]
      exact ⟨_, rfl⟩
  | joining agent reply =>
      obtain ⟨answer, hanswer⟩ := h.lookup_isSome hstopped (congrArg LoopStage.awaited hd)
      dsimp only
      rw [hanswer]
      exact ⟨_, rfl⟩
  | asking =>
      obtain ⟨service, hservice⟩ := h.request_isSome hstopped (.members d.loop.coalition)
      dsimp only [send]
      rw [hservice]
      exact ⟨_, rfl⟩
  | reading reply =>
      obtain ⟨answer, hanswer⟩ := h.lookup_isSome hstopped (congrArg LoopStage.awaited hd)
      dsimp only
      rw [hanswer]
      exact ⟨_, rfl⟩
  | ended => exact absurd hd hstage

/-- Until it has returned, a daemon that shuts down can take a step of its own. -/
theorem Keeps.exists_step (h : d.Keeps coalition candidates) (hc : d.cancelled = true)
    (circumstances : Circumstances V Score) (hmain : ∀ signal outcome logged,
      d.main ≠ .returned signal outcome logged) :
    ∃ (a : Action G V HE Score) (d' : Daemon G V HE E Score), d.step a = some d' ∧ a.own = 1 := by
  by_cases hstopped : d.service.task = .stopped
  · by_cases hstage : d.loop.stage = .ended
    · cases hd : d.main with
      | waiting | signalled signal =>
          have hkeeps := h.main
          rw [MainKeeps, hd] at hkeeps
          cases hkeeps.symm.trans hc
      | draining signal =>
          have hended : d.service.task.isStopped ∧ d.loop.stage = .ended := by
            rw [hstopped]
            exact ⟨rfl, hstage⟩
          let ending := conclude (failures signal d.service.panicked (.ok ()))
          refine ⟨.drained, { d with main := .returned signal ending.1 ending.2 }, ?_, rfl⟩
          simp only [step, hd]
          exact if_pos hended
      | returned signal outcome logged => exact absurd hd (hmain signal outcome logged)
    · obtain ⟨d', hstep⟩ := h.loopStep_isSome hstopped hstage
      exact ⟨.loop, d', hstep, rfl⟩
  · obtain ⟨service, hservice⟩ := Service.poll_isSome catchUnwind circumstances hstopped
    refine ⟨.service (.poll circumstances), { d with service }, ?_, rfl⟩
    rw [step, if_neg fun hdrops ↦ Bool.false_ne_true hdrops.1]
    exact congrArg (Option.map _) hservice

end Shutdown

/-! ## What a run comes to -/

/-- What a daemon does. -/
structure Serves (coalition : HyperedgeIndex) (candidates : List VertexIndex)
    (d : Daemon G V HE E Score) [Hypergraph G V HE E] [Zero Score] : Prop where
  /-- The candidates with an answer, and the one that is being offered, are the first ones, in
  order; and the answers are those of the service. -/
  inOrder : d.loop.log.filterMap OfferLog.agent ++ d.loop.stage.offer.toList =
    candidates.take d.loop.next ∧ ∀ entry ∈ d.loop.log, entry.answered ∈ d.service.outcomes
  /-- The loop ends when it is cancelled or told so, and goes on if it is told anything else. -/
  stops : (d.loop.stage = .ended → d.cancelled = true ∨
      ∃ entry, d.loop.log.getLast? = some entry ∧ entry.isTerminal = true) ∧
    ∀ entry ∈ d.loop.log, entry.isTerminal = true → d.loop.stage = .ended
  /-- If it was told that the service has stopped, the service works on nothing any more. -/
  finished : ∀ entry ∈ d.loop.log, ∀ error, entry.answered.2 = .error error →
    (∀ e, error ≠ .topology e) → ∀ later d', run later d = some d' →
      d'.service.handled = d.service.handled
  /-- When the main task returns, no request to the service is left unanswered, and it returns
  the first of what failed. -/
  returns : ∀ signal outcome logged, d.main = .returned signal outcome logged →
    d.service.task = .stopped ∧ d.loop.stage = .ended ∧
      (∀ reply ∈ d.service.accepted, reply ∈ d.service.answered) ∧
      (outcome = .ok () ↔ signal = some (.ok ()) ∧ d.service.faulted = none) ∧
      conclude (failures signal d.service.faulted.isSome (.ok ())) = (outcome, logged)
  /-- Shutting down takes no more than so many steps, and always comes to its end. -/
  shutsDown : d.cancelled = true → ∀ later d', run later d = some d' →
    (later.map Action.own).sum ≤ shutdownSteps ∧
      (Circumstances V Score → (∀ signal outcome logged,
        d'.main ≠ .returned signal outcome logged) →
          ∃ (a : Action G V HE Score) (d'' : Daemon G V HE E Score),
            d'.step a = some d'' ∧ a.own = 1)

/-- Nothing has failed if the signal came and nothing panicked. -/
theorem conclude_eq_ok (signal : Option (Except String Unit)) (panicked : Bool) :
    (conclude (failures signal panicked (.ok ()))).1 = .ok () ↔
      signal = some (.ok ()) ∧ panicked = false := by
  cases panicked with
  | true =>
      cases signal with
      | none => simp [failures, conclude]
      | some result => cases result <;> simp [failures, conclude]
  | false =>
      cases signal with
      | none => simp [failures, conclude]
      | some result => cases result <;> simp [failures, conclude]

section Serves

variable [Hypergraph G V HE E] [Zero Score]
variable {d : Daemon G V HE E Score} {coalition : HyperedgeIndex} {candidates : List VertexIndex}

/-- A service that runs on as part of a daemon works on nothing once it is over. -/
theorem Keeps.handled_of_over (h : d.Keeps coalition candidates) (hover : d.service.Over)
    {later : List (Action G V HE Score)} {d' : Daemon G V HE E Score}
    (hrun : run later d = some d') : d'.service.handled = d.service.handled := by
  refine (foldlM_inv (P := fun e : Daemon G V HE E Score ↦ e.Keeps coalition candidates ∧
    e.service.Over ∧ e.service.handled = d.service.handled) ?_ ⟨h, hover, rfl⟩ hrun).2.2
  rintro a - e e' ⟨he, heover, hehandled⟩ hstep
  have hmoves := moves_of_step hstep
  have hover' := hmoves.keeps_service
    (P := fun s ↦ s.Over ∧ s.handled = e.service.handled)
    (fun b s hs ↦ he.service.over_move hs heover) ⟨heover, rfl⟩
  exact ⟨he.move hmoves, hover'.1, hover'.2.trans hehandled⟩

omit [Hypergraph G V HE E] [Zero Score] in
/-- What is returned. -/
theorem Keeps.returns (h : d.Keeps coalition candidates) {signal : Option (Except String Unit)}
    {outcome : Except String Unit} {logged : List String}
    (hmain : d.main = .returned signal outcome logged) :
    d.service.task = .stopped ∧ d.loop.stage = .ended ∧
      (∀ reply ∈ d.service.accepted, reply ∈ d.service.answered) ∧
      (outcome = .ok () ↔ signal = some (.ok ()) ∧ d.service.faulted = none) ∧
      conclude (failures signal d.service.faulted.isSome (.ok ())) = (outcome, logged) := by
  have hkeeps := h.main
  rw [MainKeeps, hmain] at hkeeps
  obtain ⟨-, hstopped, hended, houtcome⟩ := hkeeps
  have hstands := h.service.stands
  rw [hstopped] at hstands
  have hpanicked : d.service.panicked = d.service.faulted.isSome := hstands.2
  rw [hpanicked] at houtcome
  refine ⟨hstopped, hended, fun reply ↦ h.service.answered_of_stopped hstopped, ?_, houtcome⟩
  have hok := conclude_eq_ok signal d.service.faulted.isSome
  rw [houtcome, Option.isSome_eq_false_iff, Option.isNone_iff_eq_none] at hok
  exact hok

/-- **The daemon shuts down.**  Take any service, any candidates, and any order of the steps of
the service task, of the join loop, of the main task and of other clients.  The candidates are
offered in their order, each once and each after the one before was answered; the loop goes on
until it is cancelled or told that the service has stopped, and then the service works on nothing
any more.  Once the main task has cancelled the tokens, the daemon takes a bounded number of steps
and is never stuck before it returns; it returns without an error just if the signal came and no
command panicked, and leaves no request unanswered. -/
theorem daemon_shuts_down {own : Owned G V HE Score} {actions : List (Action G V HE Score)}
    (h : run actions (start own coalition candidates : Daemon G V HE E Score) = some d) :
    d.Serves coalition candidates := by
  have hkeeps := (keeps_start own).after_run h
  refine ⟨⟨hkeeps.loop.offered, hkeeps.loop.told⟩, ⟨hkeeps.loop.stops, hkeeps.loop.goesOn⟩,
    fun entry hentry error herror htopology later d' hlater ↦ ?_,
    fun signal outcome logged ↦ hkeeps.returns, fun hc later d' hlater ↦ ⟨?_, ?_⟩⟩
  · have htold : (entry.answered.1, .error error) ∈ d.service.outcomes := by
      rw [← herror]
      exact hkeeps.loop.told entry hentry
    exact hkeeps.handled_of_over
      (hkeeps.service.over_of_outcome hkeeps.goneClosed htold htopology) hlater
  · have hle := hkeeps.stopSteps_run hc hlater
    have hbound := hkeeps.stopSteps_le hc
    omega
  · intro circumstances hmain
    refine (hkeeps.after_run hlater).exists_step ?_ circumstances hmain
    exact foldlM_inv (P := fun e ↦ e.cancelled = true)
      (fun _ _ _ _ he hstep ↦ (moves_of_step hstep).cancelled he) hc hlater

end Serves

/-! ## A daemon that stops on a signal -/

/-- The first candidate joins, the signal comes while its offer is worked on, and the tokens are
cancelled before the loop has been told. -/
def stoppedDaemon : List (Action (MapGraph Nat Nat) Nat Nat Nat) :=
  let poll : Action (MapGraph Nat Nat) Nat Nat Nat := .service (.poll CoalitionService.welcoming)
  [.loop, .loop, poll, poll, .signal (.ok ()), poll, .shutdown, poll, .loop, .loop, poll, poll,
    .loop, poll, .drained]

/-- The join is answered with a decision and the read with a refusal, on which the loop ends. -/
theorem daemon_stops_on_a_signal :
    ∃ d : Daemon (MapGraph Nat Nat) Nat Nat MapGraphError Nat,
      run stoppedDaemon (start CoalitionService.pair 0 [1, 1]) = some d ∧
        d.loop.log.map OfferLog.answered =
          [(0, .ok (.decision ⟨true, 1⟩)), (1, .error .cancelled)] ∧
        d.main = .returned (some (.ok ())) (.ok ()) [] ∧ d.service.faulted = none ∧
        ∀ reply ∈ d.service.accepted, reply ∈ d.service.answered := by
  have hrun : (run stoppedDaemon (start CoalitionService.pair 0 [1, 1])).map
      (fun d : Daemon (MapGraph Nat Nat) Nat Nat MapGraphError Nat ↦
        (d.loop.log.map OfferLog.answered, d.main)) =
      some ([(0, .ok (.decision ⟨true, 1⟩)), (1, .error .cancelled)],
        .returned (some (.ok ())) (.ok ()) []) := rfl
  obtain ⟨d, hd, hfields⟩ := Option.map_eq_some_iff.mp hrun
  obtain ⟨hlog, hmain⟩ := Prod.mk.inj hfields
  obtain ⟨-, -, hanswered, hok, -⟩ := (daemon_shuts_down hd).returns _ _ _ hmain
  exact ⟨d, hd, hlog, hmain, (hok.mp rfl).2, hanswered⟩

end Daemon

end Koalisi.Subsystems
