import Koalisi.Lib.Channel
import Koalisi.Lib.Fallible
import Koalisi.Topology.Temporal

/-!
# A task that serves requests

A service is a task that owns a world and changes it on request.  Clients hold handles;
a request is a command on a bounded channel together with the sending half of a reply
channel, named here by a number that no other request has.  The task takes one command
at a time and works on it, and the work may return, fail or panic.  A cancel makes the
task refuse what is queued; a panic makes it end, which drops what is queued.

`poll` is one step of the task, with what the work may depend on given as an oracle, and
`step` adds what clients and other holders of the world do.  What becomes of a request is
what is sent on its reply channel, or that the channel's sender is dropped, and `outcomes`
collects that; like the numbers, it is there for the theorems only.

A send to a full channel waits, so here it is a step that cannot be taken yet.  It takes
effect in one step, so that nothing is in between when the receiver goes away.
-/

namespace Koalisi.Subsystems

open Koalisi.Lib Koalisi.Lib.Fallible Koalisi.Topology

/-- The failure of a command. -/
inductive ServiceError (E : Type) where
  /-- The service task had stopped taking commands when the command was sent. -/
  | gone
  /-- The service task ended without answering the command. -/
  | replyDropped
  /-- The command was still queued when the service's token was cancelled. -/
  | cancelled
  /-- Handling this command panicked. -/
  | panicked (message : String)
  /-- The manager failed the command with a topology error. -/
  | topology (error : TemporalError E)
deriving DecidableEq, Repr

/-- Capacity of the command channel. -/
def commandCapacity : Nat := 64

/-- The reply channel of a request. -/
abbrev RequestId := Nat

/-- Where the task stands. -/
inductive Task (Cmd Rep E : Type) where
  /-- It looks at the token. -/
  | select
  /-- The token was not cancelled, and it looks at the channel. -/
  | recv
  | handling (reply : RequestId) (cmd : Cmd)
  /-- The work has returned. -/
  | replying (reply : RequestId) (output : Except (TemporalError E) Rep)
  /-- The work has panicked. -/
  | caught (reply : RequestId) (message : String)
  /-- The flag is set, and the panic not yet reported. -/
  | flagged (reply : RequestId) (message : String)
  /-- The panic is reported, and the receiver not yet dropped. -/
  | returning
  /-- The receiver is closed, and queued commands are refused. -/
  | refusing
  /-- The receiver is dropped, and queued commands with it. -/
  | dropping
  | stopped
deriving DecidableEq, Repr

/-- The task has ended. -/
def Task.isStopped {Cmd Rep E : Type} : Task Cmd Rep E → Bool
  | .stopped => true
  | _ => false

/-- A service with its clients. -/
structure Service (W Cmd Rep E : Type) where
  /-- The command channel. -/
  rx : Channel (RequestId × Cmd)
  /-- Handles not yet dropped. -/
  handles : Nat
  /-- The token is cancelled. -/
  cancelled : Bool
  /-- The flag the handles read. -/
  panicked : Bool
  task : Task Cmd Rep E
  world : W
  /-- The number of the next request. -/
  next : RequestId
  /-- Requests whose command was sent. -/
  accepted : List RequestId
  /-- Requests the task has worked on. -/
  handled : List RequestId
  /-- The request whose work panicked. -/
  faulted : Option RequestId
  /-- What became of requests. -/
  outcomes : List (RequestId × Except (ServiceError E) Rep)

/-- What can happen next. -/
inductive Service.Action (W Cmd O : Type) where
  /-- A client sends a command, or learns that it cannot. -/
  | request (cmd : Cmd)
  | cloneHandle
  | dropHandle
  | cancel
  /-- Another holder of the world changes it. -/
  | outside (world : W)
  /-- The task takes a step. -/
  | poll (oracle : O)

/-- The steps among these that are the task's. -/
def Service.Action.polls {W Cmd O : Type} : Service.Action W Cmd O → Nat
  | .poll _ => 1
  | _ => 0

namespace Service

variable {W Cmd Rep E O : Type}

/-- A service that has just been spawned. -/
def spawn (world : W) : Service W Cmd Rep E where
  rx := .new commandCapacity
  handles := 1
  cancelled := false
  panicked := false
  task := .select
  world := world
  next := 0
  accepted := []
  handled := []
  faulted := none
  outcomes := []

/-- A reply is sent, or its sender dropped. -/
def answer (s : Service W Cmd Rep E) (reply : RequestId)
    (outcome : Except (ServiceError E) Rep) : Service W Cmd Rep E :=
  { s with outcomes := s.outcomes ++ [(reply, outcome)] }

section Steps

variable (work : O → Cmd → W → Except String (Except (TemporalError E) Rep) × W)

/-- Await the work on a command. -/
def serve (oracle : O) (reply : RequestId) (cmd : Cmd) (s : Service W Cmd Rep E) :
    Service W Cmd Rep E :=
  match work oracle cmd s.world with
  | (.ok output, world) =>
      { s with world := world, handled := s.handled ++ [reply], task := .replying reply output }
  | (.error message, world) =>
      { s with
        world := world
        handled := s.handled ++ [reply]
        faulted := some reply
        task := .caught reply message }

/-- One step of the task. -/
def poll (oracle : O) (s : Service W Cmd Rep E) : Option (Service W Cmd Rep E) :=
  match s.task with
  | .select =>
      if s.cancelled then some { s with rx := s.rx.close, task := .refusing }
      else some { s with task := .recv }
  | .recv =>
      match s.rx.tryRecv with
      | some ((reply, cmd), rx) => some { s with rx := rx, task := .handling reply cmd }
      | none =>
          if s.handles = 0 then some { s with rx := s.rx.close, task := .stopped }
          -- it waits, and looks at the token first when it is woken
          else some { s with task := .select }
  | .handling reply cmd => some (s.serve work oracle reply cmd)
  | .replying reply output =>
      some { s.answer reply (output.mapError .topology) with task := .select }
  | .caught reply message => some { s with panicked := true, task := .flagged reply message }
  | .flagged reply message =>
      some { s.answer reply (.error (.panicked message)) with task := .returning }
  | .returning => some { s with rx := s.rx.close, task := .dropping }
  | .refusing =>
      match s.rx.tryRecv with
      | some ((reply, _), rx) => some { s.answer reply (.error .cancelled) with rx := rx }
      | none => some { s with task := .stopped }
  | .dropping =>
      match s.rx.tryRecv with
      | some ((reply, _), rx) => some { s.answer reply (.error .replyDropped) with rx := rx }
      | none => some { s with task := .stopped }
  | .stopped => none

/-- Send a command with a fresh reply channel. -/
def request (cmd : Cmd) (s : Service W Cmd Rep E) : Option (Service W Cmd Rep E) :=
  match s.rx.trySend (s.next, cmd) with
  | .ok rx => some { s with rx := rx, next := s.next + 1, accepted := s.accepted ++ [s.next] }
  | .error .closed => some { s.answer s.next (.error .gone) with next := s.next + 1 }
  | .error .full => none

/-- One step of the service or of those around it. -/
def step (s : Service W Cmd Rep E) : Action W Cmd O → Option (Service W Cmd Rep E)
  | .request cmd => if s.handles = 0 then none else s.request cmd
  | .cloneHandle => if s.handles = 0 then none else some { s with handles := s.handles + 1 }
  | .dropHandle => if s.handles = 0 then none else some { s with handles := s.handles - 1 }
  | .cancel => some { s with cancelled := true }
  | .outside world => some { s with world := world }
  | .poll oracle => s.poll work oracle

/-- A run. -/
def run (actions : List (Action W Cmd O)) (s : Service W Cmd Rep E) :
    Option (Service W Cmd Rep E) :=
  actions.foldlM (step work) s

end Steps

/-! ## Where a request is -/

/-- Requests in the channel. -/
def queued (s : Service W Cmd Rep E) : List RequestId := s.rx.queue.map Prod.fst

/-- The request the task has taken and not answered. -/
def inHand (s : Service W Cmd Rep E) : List RequestId :=
  match s.task with
  | .handling reply _ => [reply]
  | .replying reply _ => [reply]
  | .caught reply _ => [reply]
  | .flagged reply _ => [reply]
  | _ => []

/-- Requests something became of. -/
def answered (s : Service W Cmd Rep E) : List RequestId := s.outcomes.map Prod.fst

/-- The request that a task past its look at the token takes next. -/
def taking (s : Service W Cmd Rep E) : Option RequestId :=
  match s.task with
  | .recv => s.queued.head?
  | _ => none

section Answer

variable {s : Service W Cmd Rep E} {reply : RequestId} {outcome : Except (ServiceError E) Rep}

@[simp] theorem answered_answer : (s.answer reply outcome).answered = s.answered ++ [reply] :=
  List.map_append

theorem queued_cons {cmd : Cmd} {rx : Channel (RequestId × Cmd)}
    (h : s.rx.queue = (reply, cmd) :: rx.queue) : s.queued = reply :: rx.queue.map Prod.fst := by
  rw [queued, h, List.map_cons]

end Answer

/-! ## What a step can do -/

/-- What a step can do. -/
inductive Moves (work : O → Cmd → W → Except String (Except (TemporalError E) Rep) × W)
    (s : Service W Cmd Rep E) : Action W Cmd O → Service W Cmd Rep E → Prop
  | accepted {cmd rx} : s.rx.closed = false → rx.queue = s.rx.queue ++ [(s.next, cmd)] →
      rx.closed = false → s.rx.queue.length < s.rx.capacity → rx.capacity = s.rx.capacity →
      Moves work s (.request cmd)
        { s with rx := rx, next := s.next + 1, accepted := s.accepted ++ [s.next] }
  | gone {cmd} : s.rx.closed = true →
      Moves work s (.request cmd) { s.answer s.next (.error .gone) with next := s.next + 1 }
  | handles {n} {a : Action W Cmd O} : a = .cloneHandle ∨ a = .dropHandle →
      Moves work s a { s with handles := n }
  | cancel : Moves work s .cancel { s with cancelled := true }
  | outside {w} : Moves work s (.outside w) { s with world := w }
  | seeCancel {o} : s.task = .select → s.cancelled = true →
      Moves work s (.poll o) { s with rx := s.rx.close, task := .refusing }
  | passToken {o} : s.task = .select → s.cancelled = false →
      Moves work s (.poll o) { s with task := .recv }
  | take {o reply cmd rx} : s.task = .recv → s.rx.queue = (reply, cmd) :: rx.queue →
      rx.closed = s.rx.closed → rx.capacity = s.rx.capacity →
      Moves work s (.poll o) { s with rx := rx, task := .handling reply cmd }
  | abandoned {o} : s.task = .recv → s.rx.queue = [] → s.handles = 0 →
      Moves work s (.poll o) { s with rx := s.rx.close, task := .stopped }
  | wait {o} : s.task = .recv → s.rx.queue = [] → Moves work s (.poll o) { s with task := .select }
  | worked {o reply cmd output w} : s.task = .handling reply cmd →
      work o cmd s.world = (.ok output, w) →
      Moves work s (.poll o)
        { s with world := w, handled := s.handled ++ [reply], task := .replying reply output }
  | panics {o reply cmd message w} : s.task = .handling reply cmd →
      work o cmd s.world = (.error message, w) →
      Moves work s (.poll o)
        { s with
          world := w
          handled := s.handled ++ [reply]
          faulted := some reply
          task := .caught reply message }
  | replied {o reply output} : s.task = .replying reply output →
      Moves work s (.poll o)
        { s.answer reply (output.mapError .topology) with task := .select }
  | flag {o reply message} : s.task = .caught reply message →
      Moves work s (.poll o) { s with panicked := true, task := .flagged reply message }
  | report {o reply message} : s.task = .flagged reply message →
      Moves work s (.poll o)
        { s.answer reply (.error (.panicked message)) with task := .returning }
  | closes {o} : s.task = .returning →
      Moves work s (.poll o) { s with rx := s.rx.close, task := .dropping }
  | refuse {o reply cmd rx} : s.task = .refusing → s.rx.queue = (reply, cmd) :: rx.queue →
      rx.closed = s.rx.closed → rx.capacity = s.rx.capacity →
      Moves work s (.poll o) { s.answer reply (.error .cancelled) with rx := rx }
  | drop {o reply cmd rx} : s.task = .dropping → s.rx.queue = (reply, cmd) :: rx.queue →
      rx.closed = s.rx.closed → rx.capacity = s.rx.capacity →
      Moves work s (.poll o) { s.answer reply (.error .replyDropped) with rx := rx }
  | stop {o} : s.task = .refusing ∨ s.task = .dropping → s.rx.queue = [] →
      Moves work s (.poll o) { s with task := .stopped }

section MovesOfStep

variable {work : O → Cmd → W → Except String (Except (TemporalError E) Rep) × W}
variable {s s' : Service W Cmd Rep E}

theorem moves_of_request {cmd : Cmd} (h : s.request cmd = some s') :
    Moves work s (.request cmd) s' := by
  unfold request at h
  split at h
  · rename_i rx hs
    cases h
    obtain ⟨hc, hc', hr, hcap⟩ := Channel.trySend_ok_open hs
    exact .accepted hc (Channel.trySend_ok hs) hc' hr hcap
  · rename_i hs
    cases h
    exact .gone (Channel.trySend_closed hs)
  · cases h

theorem moves_of_serve {oracle : O} {reply : RequestId} {cmd : Cmd}
    (ht : s.task = .handling reply cmd) :
    Moves work s (.poll oracle) (s.serve work oracle reply cmd) := by
  unfold serve
  split
  · rename_i output w hw
    exact .worked ht hw
  · rename_i message w hw
    exact .panics ht hw

theorem moves_of_poll {oracle : O} (h : s.poll work oracle = some s') :
    Moves work s (.poll oracle) s' := by
  unfold poll at h
  split at h
  case h_1 ht =>
      split at h
      · rename_i hc
        cases h
        exact .seeCancel ht hc
      · rename_i hc
        cases h
        exact .passToken ht (Bool.not_eq_true _ ▸ hc)
  case h_2 ht =>
      split at h
      · rename_i reply cmd rx hr
        cases h
        exact .take ht (Channel.tryRecv_some hr) (Channel.tryRecv_some_rest hr).1
          (Channel.tryRecv_some_rest hr).2
      · rename_i hr
        split at h
        · rename_i hn
          cases h
          exact .abandoned ht (Channel.tryRecv_none hr) hn
        · cases h
          exact .wait ht (Channel.tryRecv_none hr)
  case h_3 reply cmd ht =>
      cases h
      exact moves_of_serve ht
  case h_4 reply output ht =>
      cases h
      exact .replied ht
  case h_5 reply message ht =>
      cases h
      exact .flag ht
  case h_6 reply message ht =>
      cases h
      exact .report ht
  case h_7 ht =>
      cases h
      exact .closes ht
  case h_8 ht =>
      split at h
      · rename_i reply cmd rx hr
        cases h
        exact .refuse ht (Channel.tryRecv_some hr) (Channel.tryRecv_some_rest hr).1
          (Channel.tryRecv_some_rest hr).2
      · rename_i hr
        cases h
        exact .stop (Or.inl ht) (Channel.tryRecv_none hr)
  case h_9 ht =>
      split at h
      · rename_i reply cmd rx hr
        cases h
        exact .drop ht (Channel.tryRecv_some hr) (Channel.tryRecv_some_rest hr).1
          (Channel.tryRecv_some_rest hr).2
      · rename_i hr
        cases h
        exact .stop (Or.inr ht) (Channel.tryRecv_none hr)
  case h_10 => cases h

/-- Every step is one of the moves. -/
theorem moves_of_step {a : Action W Cmd O} (h : s.step work a = some s') : Moves work s a s' := by
  cases a with
  | request cmd =>
      rw [step] at h
      split at h
      · cases h
      · exact moves_of_request h
  | cloneHandle =>
      rw [step] at h
      split at h
      · cases h
      · cases h
        exact .handles (Or.inl rfl)
  | dropHandle =>
      rw [step] at h
      split at h
      · cases h
      · cases h
        exact .handles (Or.inr rfl)
  | cancel =>
      cases h
      exact .cancel
  | outside w =>
      cases h
      exact .outside
  | poll oracle => exact moves_of_poll h

end MovesOfStep

end Service

end Koalisi.Subsystems
