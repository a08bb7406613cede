import Mathlib.Data.List.ReduceOption
import Koalisi.Ingest.Monitor
import Koalisi.Lib.Mailbox

/-!
# Handles of a monitor

A monitor is owned by a task, and the others talk to it through handles.  A sample can be told,
which is a send and no more, or fed, and then the caller waits until the monitor has ingested it and
published the update.  A snapshot shows the monitor as it is, and a ping is answered when everything
before it is done.

The task is a `Mailbox` around the monitor and its bus.  So whoever sends what, in whatever order
the tasks move, a snapshot shows the last samples among those sent before it was asked for, and an
answered feed or ping means that all updates up to it are on the bus (`handles_see_what_was_sent`).
-/

namespace Koalisi.Ingest

open Koalisi.Lib Sample

variable {S : Type} [Sample S]

/-- Capacity of the command channel of a monitor. -/
def commandCapacity : Nat := 1024

inductive MonitorCommand (S : Type) where
  /-- A sample, and nobody waits. -/
  | sample (sample : S)
  /-- A sample that is acknowledged. -/
  | feed (sample : S)
  | snapshot
  | ping
deriving DecidableEq

inductive MonitorReply (S : Type) [Sample S] where
  /-- There is nobody to reply to. -/
  | nothing
  | ack
  | snapshot (snapshot : SampleSnapshot S)

/-- What the task owns: the monitor, and its end of the bus, with what was published on it. -/
structure Monitored (S : Type) [Sample S] where
  monitor : SampleMonitor S
  published : List (SampleUpdate S)

namespace Monitored

/-- Ingest a sample, and publish its update if there is one. -/
def take (self : Monitored S) (sample : S) : Monitored S :=
  match self.monitor.ingest sample with
  | (some update, monitor) => { monitor, published := self.published ++ [update] }
  | (none, monitor) => { self with monitor }

/-- Handle one command. -/
def handle (self : Monitored S) : MonitorCommand S → MonitorReply S × Monitored S
  | .sample sample => (.nothing, self.take sample)
  | .feed sample => (.ack, self.take sample)
  | .snapshot => (.snapshot self.monitor.snapshot, self)
  | .ping => (.ack, self)

end Monitored

/-- A monitor with its handles. -/
abbrev MonitorTask (S : Type) [Sample S] :=
  Mailbox (Monitored S) (MonitorCommand S) (MonitorReply S)

def spawnSampleMonitor (key : Key S) (capacity : Nat) : MonitorTask S :=
  .spawn commandCapacity { monitor := .new key capacity, published := [] }

/-! ## What commands come to -/

/-- The samples that come with some commands. -/
def samples (cmds : List (MonitorCommand S)) : List S :=
  cmds.filterMap fun
    | .sample sample => some sample
    | .feed sample => some sample
    | _ => none

/-- The updates that samples of a key become. -/
def updates (key : Key S) (fed : List S) : List (SampleUpdate S) :=
  (SampleMonitor.matching key fed).map fun s ↦ { key, view := view s }

omit [Sample S] in
theorem samples_append (cmds cmds' : List (MonitorCommand S)) :
    samples (cmds ++ cmds') = samples cmds ++ samples cmds' := List.filterMap_append

theorem updates_append (key : Key S) (fed fed' : List S) :
    updates key (fed ++ fed') = updates key fed ++ updates key fed' := by
  rw [updates, SampleMonitor.matching, List.filter_append, List.map_append]
  rfl

/-- More samples, more updates. -/
theorem updates_prefix (key : Key S) {cmds cmds' : List (MonitorCommand S)} (h : cmds <+: cmds') :
    updates key (samples cmds) <+: updates key (samples cmds') := by
  obtain ⟨rest, rfl⟩ := h
  rw [samples_append, updates_append]
  exact List.prefix_append _ _

/-- A monitor with its bus, after some samples. -/
structure Monitored.Has (world : Monitored S) (key : Key S) (capacity : Nat) (fed : List S) :
    Prop where
  seen : world.monitor.HasSeen key capacity (SampleMonitor.matching key fed)
  published : world.published = updates key fed

variable {self : Monitored S} {key : Key S} {capacity : Nat} {fed : List S}

theorem Monitored.Has.take (h : self.Has key capacity fed) (sample : S) :
    (self.take sample).Has key capacity (fed ++ [sample]) := by
  by_cases hkey : Sample.key sample = key
  · obtain ⟨hupdate, hseen⟩ := SampleMonitor.ingest_of_eq h.seen hkey
    have hmatching : SampleMonitor.matching key (fed ++ [sample]) =
        SampleMonitor.matching key fed ++ [sample] := by
      rw [SampleMonitor.matching, List.filter_append,
        List.filter_cons_of_pos (by simpa using hkey)]
      rfl
    unfold Monitored.take
    generalize self.monitor.ingest sample = ingested at hupdate hseen
    obtain ⟨update, monitor⟩ := ingested
    subst hupdate
    constructor
    · rw [hmatching]
      exact hseen
    · change self.published ++ [_] = updates key (fed ++ [sample])
      rw [updates, hmatching, List.map_append, h.published]
      rfl
  · have hmatching : SampleMonitor.matching key (fed ++ [sample]) =
        SampleMonitor.matching key fed := by
      rw [SampleMonitor.matching, List.filter_append,
        List.filter_cons_of_neg (by simpa using hkey)]
      exact List.append_nil _
    have hne : Sample.key sample ≠ self.monitor.key := by
      rw [h.seen.key_eq]
      exact hkey
    unfold Monitored.take
    rw [SampleMonitor.ingest_of_ne hne]
    constructor
    · rw [hmatching]
      exact h.seen
    · rw [updates, hmatching]
      exact h.published

/-- What a monitor that has just been spawned comes to. -/
theorem has_after (key : Key S) (capacity : Nat) (cmds : List (MonitorCommand S)) :
    (after Monitored.handle { monitor := .new key capacity, published := [] } cmds).Has key capacity
      (samples cmds) := by
  induction cmds using List.reverseRecOn with
  | nil => exact ⟨SampleMonitor.hasSeen_new, rfl⟩
  | append_singleton cmds cmd ih =>
      rw [samples_append, after, List.foldl_append]
      change (Monitored.handle (after _ _ cmds) cmd).2.Has _ _ _
      cases cmd with
      | sample sample => exact ih.take sample
      | feed sample => exact ih.take sample
      | snapshot =>
          rw [show samples [(MonitorCommand.snapshot : MonitorCommand S)] = [] from rfl,
            List.append_nil]
          exact ih
      | ping =>
          rw [show samples [(MonitorCommand.ping : MonitorCommand S)] = [] from rfl,
            List.append_nil]
          exact ih

/-! ## What handles see -/

/-- What the clients of a monitor see. -/
structure Shows (key : Key S) (capacity : Nat) (m : MonitorTask S) : Prop where
  serves : m.Serves Monitored.handle { monitor := .new key capacity, published := [] }
  /-- The bus has the updates of the samples that were handled, in the order they were sent in. -/
  published : m.state.published = updates key (samples (m.handled.map fun h ↦ h.2.op))
  /-- A snapshot shows the last samples, as many as there is room for, of those sent before. -/
  snapshots : ∀ n snapshot, (n, some (.snapshot snapshot)) ∈ m.answers →
    let seen := SampleMonitor.matching key (samples ((m.sent.take n).map Prod.snd))
    snapshot =
      { key, latest := seen.getLast?.map view, history := SampleMonitor.kept capacity seen }
  /-- When a feed or a ping is acknowledged, all updates up to it are on the bus. -/
  flushed : ∀ n, (n, some .ack) ∈ m.answers →
    updates key (samples ((m.sent.take (n + 1)).map Prod.snd)) <+: m.state.published

theorem shows_of_serves {m : MonitorTask S}
    (h : m.Serves Monitored.handle { monitor := .new key capacity, published := [] }) :
    Shows key capacity m := by
  have hpublished : m.state.published = updates key (samples (m.handled.map fun h ↦ h.2.op)) := by
    rw [h.inOrder.1]
    exact (has_after key capacity _).published
  refine ⟨h, hpublished, fun n snapshot hanswer ↦ ?_, fun n hanswer ↦ ?_⟩
  · obtain ⟨-, cmd, -, hreply⟩ := h.alone n _ hanswer
    have hhas := has_after key capacity ((m.sent.take n).map Prod.snd)
    generalize after Monitored.handle { monitor := .new key capacity, published := [] }
      ((m.sent.take n).map Prod.snd) = world at hreply hhas
    cases cmd with
    | sample sample => cases hreply
    | feed sample => cases hreply
    | snapshot =>
        cases hreply
        rw [SampleMonitor.snapshot, hhas.seen.key_eq, hhas.seen.latest_eq, hhas.seen.history_eq]
    | ping => cases hreply
  · obtain ⟨hlt, -⟩ := h.alone n _ hanswer
    rw [hpublished]
    refine updates_prefix key ?_
    have hprefix := h.inOrder.2
    rw [List.prefix_iff_eq_take, List.length_map] at hprefix
    have hhandled : (m.handled.map fun h ↦ h.2.op) =
        (m.sent.take m.handled.length).map Prod.snd := by
      rw [← hprefix, List.map_map]
      rfl
    rw [hhandled]
    exact List.IsPrefix.map _ (List.take_prefix_take_left hlt)

/-- **Handles see what was sent.** -/
theorem handles_see_what_was_sent {key : Key S} {capacity : Nat} {m : MonitorTask S}
    {actions : List (Mailbox.Action (MonitorCommand S))}
    (h : Mailbox.run Monitored.handle actions (spawnSampleMonitor key capacity) = some m) :
    Shows key capacity m := shows_of_serves (Mailbox.serves_run h)

/-- A sample is told and another fed; the second is of another key. -/
def toldAndFed : List (Mailbox.Action (MonitorCommand (NumericSample Nat))) :=
  [.request (.sample ⟨"load", 7, 0⟩), .request (.feed ⟨"flow", 8, 1⟩), .poll, .poll, .poll, .poll,
    .poll, .poll]

/-- When the feed is acknowledged, the update of the sample that was told is on the bus. -/
theorem told_sample_is_published :
    ∃ m : MonitorTask (NumericSample Nat),
      Mailbox.run Monitored.handle toldAndFed (spawnSampleMonitor "load" 4) = some m ∧
        (1, some .ack) ∈ m.answers ∧ [⟨"load", ⟨7, 0⟩⟩] <+: m.state.published := by
  have hrun : (Mailbox.run Monitored.handle toldAndFed (spawnSampleMonitor "load" 4)).map
      (fun m : MonitorTask (NumericSample Nat) ↦ (m.answers, m.sent)) =
        some ([(0, some .nothing), (1, some .ack)],
          [(0, .sample ⟨"load", 7, 0⟩), (1, .feed ⟨"flow", 8, 1⟩)]) := rfl
  obtain ⟨m, hm, hfields⟩ := Option.map_eq_some_iff.mp hrun
  obtain ⟨hanswers, hsent⟩ := Prod.mk.inj hfields
  have hack : (1, some .ack) ∈ m.answers := by
    rw [hanswers]
    exact List.mem_cons_of_mem _ List.mem_cons_self
  have hflushed := (handles_see_what_was_sent hm).flushed 1 hack
  rw [hsent] at hflushed
  exact ⟨m, hm, hack, hflushed⟩

end Koalisi.Ingest
