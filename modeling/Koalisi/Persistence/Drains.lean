import Koalisi.Persistence.Pipeline

/-!
# What a cancelled task drains

The forwarder and the writer drain their channels by receiving until there is nothing
to receive.  Handling an item takes time, so senders that go on sending keep a draining
task busy: it drains what was buffered when it saw the cancel and whatever arrives until
it finds its channel empty.  It keeps to what was buffered exactly if nothing arrives
in between (`drains_what_was_buffered`).

Here anybody may send to the tap at any time, so a run is one of any senders whatever.
-/

namespace Koalisi.Persistence

open Koalisi.Lib Koalisi.Lib.Fallible
open Koalisi.Topology

variable {V HE VW HW : Type}

/-- A tap with any senders, and the pipe behind it. -/
structure Feed (V HE : Type) where
  tap : Channel (TemporalEvent V HE)
  /-- Nobody holds a sender of the tap any more. -/
  tapGone : Bool
  pipe : Pipe V HE

namespace Feed

/-- What can happen to a feed. -/
inductive Action (V HE : Type) where
  /-- Somebody sends an event to the tap, which drops it if it is full or closed. -/
  | trySend (event : TemporalEvent V HE)
  | dropTap
  | move (m : Move)
deriving DecidableEq

/-- An empty tap, and tasks that have just been started. -/
def spawn (capacity writerCapacity : Nat) (producers : Bool) (store : FileEventStore) :
    Feed V HE where
  tap := .new capacity
  tapGone := false
  pipe := .spawn store writerCapacity producers

/-- One action, if it is possible. -/
def step (prims : Primitives) (codec : PayloadCodec VW HW) (proj : Projections V HE VW HW)
    (feed : Feed V HE) : Action V HE → Option (Feed V HE)
  | .trySend event =>
      if feed.tapGone then none
      else match feed.tap.trySend event with
        | .ok tap => some { feed with tap := tap, pipe := feed.pipe.tapped feed.tap tap }
        | .error _ => some feed
  | .dropTap => some { feed with tapGone := true }
  | .move m => (feed.pipe.move prims codec proj feed.tapGone feed.tap m).map fun (tap, pipe) ↦
      { feed with tap := tap, pipe := pipe }

/-- Actions one after the other. -/
def run (prims : Primitives) (codec : PayloadCodec VW HW) (proj : Projections V HE VW HW)
    (actions : List (Action V HE)) (feed : Feed V HE) : Option (Feed V HE) :=
  actions.foldlM (step prims codec proj) feed

/-- The topology forwarder and its channel. -/
def forwarder (feed : Feed V HE) : Consumer (TemporalEvent V HE) × Channel (TemporalEvent V HE) :=
  (feed.pipe.forwarder, feed.tap)

/-- The store writer and its channel. -/
def writer (feed : Feed V HE) : Consumer (StreamId × Record) × Channel (StreamId × Record) :=
  (feed.pipe.writer, feed.pipe.writerRx)

/-- In a run, nothing is sent to a task's channel between the moment the task sees the
cancel and the moment it finds the channel empty. -/
def Quiet {α : Type} (prims : Primitives) (codec : PayloadCodec VW HW)
    (proj : Projections V HE VW HW) (view : Feed V HE → Consumer α × Channel α) :
    Feed V HE → List (Action V HE) → Prop
  | _, [] => True
  | feed, action :: actions => ∀ feed', feed.step prims codec proj action = some feed' →
      ((view feed).1.isDraining = true →
        (view feed').2.queue.length ≤ (view feed).2.queue.length) ∧
      Quiet prims codec proj view feed' actions

end Feed

/-! ## Each move is a step of the tasks -/

section Steps

variable {prims : Primitives} {codec : PayloadCodec VW HW} {proj : Projections V HE VW HW}
variable {pipe pipe' : Pipe V HE} {tap tap' : Channel (TemporalEvent V HE)} {tapGone : Bool}

theorem Pipe.send_step {stream : StreamId} {record : Record}
    (h : pipe.send stream record = some pipe') : pipe'.forwarder = pipe.forwarder ∧
      Consumer.Step (pipe.writer, pipe.writerRx) (pipe'.writer, pipe'.writerRx) := by
  rcases Pipe.send_cases h with ⟨rx, hrx, rfl⟩ | rfl
  · exact ⟨rfl, .arrive hrx⟩
  · exact ⟨rfl, .idle rfl⟩

theorem Pipe.move_step {m : Move}
    (h : pipe.move prims codec proj tapGone tap m = some (tap', pipe')) :
    Consumer.Step (pipe.forwarder, tap) (pipe'.forwarder, tap') ∧
      Consumer.Step (pipe.writer, pipe.writerRx) (pipe'.writer, pipe'.writerRx) := by
  cases m with
  | cancelForwarder | cancelWriter | dropProducers =>
      cases h
      exact ⟨.idle rfl, .idle rfl⟩
  | pollForwarder =>
      obtain ⟨_, hpoll, h⟩ := Option.map_eq_some_iff.mp h
      cases h
      exact ⟨.poll hpoll, .idle rfl⟩
  | pollWriter =>
      obtain ⟨_, hpoll, h⟩ := Option.map_eq_some_iff.mp h
      cases h
      exact ⟨.idle rfl, .poll hpoll⟩
  | dropTapRx | dropWriterRx =>
      simp only [Pipe.move] at h
      split at h <;> cases h
      exact ⟨.idle rfl, .idle rfl⟩
  | produce stream record =>
      simp only [Pipe.move] at h
      split at h
      · obtain ⟨p, hp, h⟩ := Option.map_eq_some_iff.mp h
        cases h
        obtain ⟨hf, hw⟩ := Pipe.send_step hp
        rw [hf]
        exact ⟨.idle rfl, hw⟩
      · cases h
  | forwardOne =>
      simp only [Pipe.move] at h
      split at h
      · obtain ⟨p, hp, h⟩ := Option.map_eq_some_iff.mp h
        cases h
        rcases Pipe.forwardOne_cases hp with ⟨e, -, rfl⟩ | ⟨record, -, hsend⟩
        · exact ⟨.finish, .idle rfl⟩
        · obtain ⟨hf, hw⟩ := Pipe.send_step hsend
          rw [hf]
          exact ⟨.finish, hw⟩
      · cases h
  | offloadAppend faults =>
      simp only [Pipe.move] at h
      split at h
      · rename_i stream record _ _
        cases h
        rcases Pipe.offloadAppend_cases prims faults pipe stream record with
          ⟨head, store, -, heq⟩ | ⟨e, store, -, heq⟩
        · rw [heq]
          exact ⟨.idle rfl, .finish⟩
        · rw [heq]
          exact ⟨.idle rfl, .finish⟩
      · cases h

namespace Feed

variable {feed feed' : Feed V HE} {action : Action V HE} {actions : List (Action V HE)}

theorem step_steps (h : feed.step prims codec proj action = some feed') :
    Consumer.Step feed.forwarder feed'.forwarder ∧ Consumer.Step feed.writer feed'.writer := by
  cases action with
  | trySend event =>
      simp only [step] at h
      split at h
      · cases h
      split at h
      · rename_i tap htap
        cases h
        have hq := Channel.trySend_ok htap
        have hlen : tap.queue.length - feed.tap.queue.length = [event].length := by
          rw [hq, List.length_append, Nat.add_sub_cancel_left]
        have hstep : Consumer.Step feed.forwarder
            (feed.pipe.forwarder.arrive [event].length, tap) := .arrive hq
        rw [← hlen] at hstep
        exact ⟨hstep, .idle rfl⟩
      · cases h
        exact ⟨.idle rfl, .idle rfl⟩
  | dropTap =>
      cases h
      exact ⟨.idle rfl, .idle rfl⟩
  | move m =>
      obtain ⟨_, hmove, h⟩ := Option.map_eq_some_iff.mp h
      cases h
      exact Pipe.move_step hmove

/-- The tasks of a run keep count. -/
theorem run_counted (hf : Consumer.Counted feed.forwarder.1 feed.forwarder.2)
    (hw : Consumer.Counted feed.writer.1 feed.writer.2)
    (h : feed.run prims codec proj actions = some feed') :
    Consumer.Counted feed'.forwarder.1 feed'.forwarder.2 ∧
      Consumer.Counted feed'.writer.1 feed'.writer.2 :=
  foldlM_inv (P := fun feed : Feed V HE ↦ Consumer.Counted feed.forwarder.1 feed.forwarder.2 ∧
      Consumer.Counted feed.writer.1 feed.writer.2)
    (fun _ _ _ _ hc hstep ↦ have hsteps := step_steps hstep
      ⟨hc.1.step hsteps.1, hc.2.step hsteps.2⟩) ⟨hf, hw⟩ h

/-- A run is quiet for a task exactly if nothing arrives late. -/
theorem quiet_iff {α : Type} {view : Feed V HE → Consumer α × Channel α}
    (hview : ∀ feed action feed', feed.step prims codec proj action = some feed' →
      Consumer.Step (view feed) (view feed'))
    (h : feed.run prims codec proj actions = some feed') :
    (view feed).1.late ≤ (view feed').1.late ∧
      (Quiet prims codec proj view feed actions ↔
        (view feed').1.late = (view feed).1.late) := by
  induction actions generalizing feed with
  | nil =>
      cases h
      exact ⟨le_rfl, fun _ ↦ rfl, fun _ ↦ trivial⟩
  | cons action actions ih =>
      obtain ⟨mid, hmid, hrest⟩ := Option.bind_eq_some_iff.mp h
      obtain ⟨hle, hiff⟩ := (hview feed action mid hmid).late
      obtain ⟨hle', hiff'⟩ := ih hrest
      refine ⟨hle.trans hle', fun hquiet ↦ ?_, fun heq next hnext ↦ ?_⟩
      · obtain ⟨hfirst, hquiet⟩ := hquiet mid hmid
        exact (hiff'.mp hquiet).trans (hiff.mpr hfirst)
      · cases hmid.symm.trans hnext
        exact ⟨hiff.mp (by omega), hiff'.mpr (by omega)⟩

/-- **What a cancelled task drains.**  In every run of any senders, a task whose channel
gets nothing between the moment the task sees the cancel and the moment it finds the
channel empty drains at most what was buffered at the first of them, and then stops.
Conversely, a task that has stopped after draining no more than that was left alone
in between. -/
theorem drains_what_was_buffered (prims : Primitives) (codec : PayloadCodec VW HW)
    (proj : Projections V HE VW HW) (capacity writerCapacity : Nat) (producers : Bool)
    (store : FileEventStore) (actions : List (Action V HE)) (fin : Feed V HE)
    (hrun : (spawn capacity writerCapacity producers store).run prims codec proj actions =
      some fin) (buffered : Nat) :
    let start : Feed V HE := spawn capacity writerCapacity producers store
    (fin.pipe.forwarder.buffered = some buffered →
      (Quiet prims codec proj forwarder start actions →
        fin.pipe.forwarder.DrainsBuffered fin.tap buffered) ∧
      (fin.pipe.forwarder.phase = .stopped → fin.pipe.forwarder.drained ≤ buffered →
        Quiet prims codec proj forwarder start actions)) ∧
    (fin.pipe.writer.buffered = some buffered →
      (Quiet prims codec proj writer start actions →
        fin.pipe.writer.DrainsBuffered fin.pipe.writerRx buffered) ∧
      (fin.pipe.writer.phase = .stopped → fin.pipe.writer.drained ≤ buffered →
        Quiet prims codec proj writer start actions)) := by
  intro start
  have hnewf : Consumer.Counted start.forwarder.1 start.forwarder.2 := Consumer.counted_new _
  have hneww : Consumer.Counted start.writer.1 start.writer.2 := Consumer.counted_new _
  obtain ⟨hf, hw⟩ := run_counted hnewf hneww hrun
  have hquietf : Quiet prims codec proj forwarder start actions ↔ fin.forwarder.1.late = 0 :=
    (quiet_iff (fun _ _ _ h ↦ (step_steps h).1) hrun).2
  have hquietw : Quiet prims codec proj writer start actions ↔ fin.writer.1.late = 0 :=
    (quiet_iff (fun _ _ _ h ↦ (step_steps h).2) hrun).2
  refine ⟨fun hb ↦ ⟨fun hq ↦ ?_, fun hs hle ↦ ?_⟩, fun hb ↦ ⟨fun hq ↦ ?_, fun hs hle ↦ ?_⟩⟩
  · exact hf.drainsBuffered (hquietf.mp hq) hb
  · exact hquietf.mpr (hf.late_of_bound hs hb hle)
  · exact hw.drainsBuffered (hquietw.mp hq) hb
  · exact hquietw.mpr (hw.late_of_bound hs hb hle)

end Feed

end Steps

namespace Sample

/-- The forwarder sees its cancel with `late` events still to be sent. -/
def forwarderRun (early late : List (TemporalEvent Nat Nat)) : List (Feed.Action Nat Nat) :=
  early.map .trySend ++ [.move .cancelForwarder, .move .pollForwarder, .move .pollForwarder] ++
    late.map .trySend ++ [.move .forwardOne, .move .pollForwarder, .move .forwardOne,
      .move .pollForwarder]

/-- The writer sees its cancel with `late` records still to be sent. -/
def writerRun (early late : List Record) : List (Feed.Action Nat Nat) :=
  early.map (fun record ↦ .move (.produce .topology record)) ++
    [.move .cancelWriter, .move .pollWriter, .move .pollWriter] ++
    late.map (fun record ↦ .move (.produce .topology record)) ++
    [.move (.offloadAppend {}), .move .pollWriter, .move (.offloadAppend {}), .move .pollWriter]

end Sample

/-- An event is sent to the tap, or a record to the writer, while the item that was buffered
at the cancel is being handled: each task drains two. -/
theorem drains_more_than_was_buffered :
    (∃ fin : Feed Nat Nat, (Feed.spawn 2 2 false Sample.store).run Sample.codec
        Sample.payloadCodec (.identity Nat Nat)
        (Sample.forwarderRun [.vertexAdded 0 0 5] [.vertexAdded 1 1 7]) = some fin ∧
      fin.pipe.forwarder.phase = .stopped ∧ fin.pipe.forwarder.buffered = some 1 ∧
      fin.pipe.forwarder.drained = 2 ∧ fin.pipe.writerRx.queue.length = 2) ∧
    ∃ fin : Feed Nat Nat, (Feed.spawn 2 2 true Sample.store).run Sample.codec
        Sample.payloadCodec (.identity Nat Nat)
        (Sample.writerRun [Sample.firstRecord] [Sample.secondRecord]) = some fin ∧
      fin.pipe.writer.phase = .stopped ∧ fin.pipe.writer.buffered = some 1 ∧
      fin.pipe.writer.drained = 2 ∧ (fin.pipe.store.streams .topology).nextSeq = 2 := by
  have hforwarder : ((Feed.spawn 2 2 false Sample.store).run Sample.codec Sample.payloadCodec
      (.identity Nat Nat) (Sample.forwarderRun [.vertexAdded 0 0 5] [.vertexAdded 1 1 7])).map
        (fun fin : Feed Nat Nat ↦ (fin.pipe.forwarder.phase, fin.pipe.forwarder.buffered,
          fin.pipe.forwarder.drained, fin.pipe.writerRx.queue.length)) =
      some (.stopped, some 1, 2, 2) := by decide +kernel
  have hwriter : ((Feed.spawn 2 2 true Sample.store).run Sample.codec Sample.payloadCodec
      (.identity Nat Nat) (Sample.writerRun [Sample.firstRecord] [Sample.secondRecord])).map
        (fun fin : Feed Nat Nat ↦ (fin.pipe.writer.phase, fin.pipe.writer.buffered,
          fin.pipe.writer.drained, (fin.pipe.store.streams .topology).nextSeq)) =
      some (.stopped, some 1, 2, 2) := by decide +kernel
  obtain ⟨ff, hff, hf⟩ := Option.map_eq_some_iff.mp hforwarder
  obtain ⟨fw, hfw, hw⟩ := Option.map_eq_some_iff.mp hwriter
  simp only [Prod.mk.injEq] at hf hw
  exact ⟨⟨ff, hff, hf⟩, fw, hfw, hw⟩

/-- Both items were there when the tasks saw their cancels. -/
theorem drains_what_was_buffered_sample :
    (∃ fin : Feed Nat Nat, (Feed.spawn 2 2 false Sample.store).run Sample.codec
        Sample.payloadCodec (.identity Nat Nat)
        (Sample.forwarderRun [.vertexAdded 0 0 5, .vertexAdded 1 1 7] []) = some fin ∧
      fin.pipe.forwarder.DrainsBuffered fin.tap 2) ∧
    ∃ fin : Feed Nat Nat, (Feed.spawn 2 2 true Sample.store).run Sample.codec
        Sample.payloadCodec (.identity Nat Nat)
        (Sample.writerRun [Sample.firstRecord, Sample.secondRecord] []) = some fin ∧
      fin.pipe.writer.DrainsBuffered fin.pipe.writerRx 2 := by
  have hforwarder : ((Feed.spawn 2 2 false Sample.store).run Sample.codec Sample.payloadCodec
      (.identity Nat Nat) (Sample.forwarderRun [.vertexAdded 0 0 5, .vertexAdded 1 1 7] [])).map
        (fun fin : Feed Nat Nat ↦ (fin.pipe.forwarder.phase, fin.pipe.forwarder.buffered,
          fin.pipe.forwarder.drained)) = some (.stopped, some 2, 2) := by decide +kernel
  have hwriter : ((Feed.spawn 2 2 true Sample.store).run Sample.codec Sample.payloadCodec
      (.identity Nat Nat) (Sample.writerRun [Sample.firstRecord, Sample.secondRecord] [])).map
        (fun fin : Feed Nat Nat ↦ (fin.pipe.writer.phase, fin.pipe.writer.buffered,
          fin.pipe.writer.drained)) = some (.stopped, some 2, 2) := by decide +kernel
  obtain ⟨ff, hff, hf⟩ := Option.map_eq_some_iff.mp hforwarder
  obtain ⟨fw, hfw, hw⟩ := Option.map_eq_some_iff.mp hwriter
  simp only [Prod.mk.injEq] at hf hw
  obtain ⟨hforward, -⟩ := Feed.drains_what_was_buffered Sample.codec Sample.payloadCodec
    (.identity Nat Nat) 2 2 false Sample.store _ ff hff 2
  obtain ⟨-, hwrite⟩ := Feed.drains_what_was_buffered Sample.codec Sample.payloadCodec
    (.identity Nat Nat) 2 2 true Sample.store _ fw hfw 2
  obtain ⟨hdrain, hquiet⟩ := hforward hf.2.1
  obtain ⟨hdrain', hquiet'⟩ := hwrite hw.2.1
  exact ⟨⟨ff, hff, hdrain (hquiet hf.1 hf.2.2.le)⟩, fw, hfw, hdrain' (hquiet' hw.1 hw.2.2.le)⟩

end Koalisi.Persistence
