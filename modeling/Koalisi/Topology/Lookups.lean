import Mathlib.Order.Bounds.Defs
import Koalisi.Lib.Latest
import Koalisi.Topology.Ranges

/-!
# What a log is asked

Next to its events a log keeps four indices and running counts, and it can be cleared.  Every
question is answered from the indices, none by going through the events.

An index that has lost or doubled a position, or that a clear has left behind, would give a wrong
answer.  After any appends and clears the answers are those a scan of the events appended since the
last clear gives (`log_answers`).  Of two snapshot markers with one timestamp only the later one is
found: the index has one entry for each timestamp.

Lookups over consecutive windows give, one after the other, the lookup over all of them, and their
counts add up (`windows_tile`).
-/

namespace Koalisi.Topology

open Koalisi.Lib Koalisi.Lib.Timeline

variable {V HE : Type}

/-! ## Counts -/

namespace EventStats

/-- The total number of events. -/
def total (stats : EventStats) : Nat :=
  stats.vertexAdded + stats.vertexRemoved + stats.vertexUpdated + stats.hyperedgeAdded +
    stats.hyperedgeRemoved + stats.hyperedgeUpdated + stats.transforms + stats.clears +
    stats.snapshots

/-- The counts of a list of events. -/
def tally (events : List (TemporalEvent V HE)) : EventStats := events.foldl count default

instance : Add EventStats where
  add s s' := ⟨s.vertexAdded + s'.vertexAdded, s.vertexRemoved + s'.vertexRemoved,
    s.vertexUpdated + s'.vertexUpdated, s.hyperedgeAdded + s'.hyperedgeAdded,
    s.hyperedgeRemoved + s'.hyperedgeRemoved, s.hyperedgeUpdated + s'.hyperedgeUpdated,
    s.transforms + s'.transforms, s.clears + s'.clears, s.snapshots + s'.snapshots⟩

theorem add_def (s s' : EventStats) : s + s' = ⟨s.vertexAdded + s'.vertexAdded,
    s.vertexRemoved + s'.vertexRemoved, s.vertexUpdated + s'.vertexUpdated,
    s.hyperedgeAdded + s'.hyperedgeAdded, s.hyperedgeRemoved + s'.hyperedgeRemoved,
    s.hyperedgeUpdated + s'.hyperedgeUpdated, s.transforms + s'.transforms, s.clears + s'.clears,
    s.snapshots + s'.snapshots⟩ := rfl

@[simp] theorem add_default (s : EventStats) : s + default = s := rfl

@[simp] theorem default_add (s : EventStats) : default + s = s := by
  simp [add_def, default]

theorem add_assoc (s s' s'' : EventStats) : s + s' + s'' = s + (s' + s'') := by
  simp [add_def, Nat.add_assoc]

/-- Counting an event adds its own count. -/
theorem count_eq_add (s : EventStats) (event : TemporalEvent V HE) :
    s.count event = s + default.count event := by
  cases event <;> rfl

theorem foldl_count (s : EventStats) (events : List (TemporalEvent V HE)) :
    events.foldl count s = s + tally events := by
  induction events generalizing s with
  | nil => rfl
  | cons event events ih =>
      rw [tally, List.foldl_cons, List.foldl_cons, ih, ih, count_eq_add, add_assoc]

@[simp] theorem tally_nil : tally ([] : List (TemporalEvent V HE)) = default := rfl

theorem tally_concat (events : List (TemporalEvent V HE)) (event : TemporalEvent V HE) :
    tally (events ++ [event]) = (tally events).count event := by
  rw [tally, List.foldl_append]
  rfl

/-- The counts of two lists add up. -/
theorem tally_append (events later : List (TemporalEvent V HE)) :
    tally (events ++ later) = tally events + tally later := by
  rw [tally, List.foldl_append]
  exact foldl_count _ later

/-- The counts of some lists add up. -/
theorem tally_flatten (slices : List (List (TemporalEvent V HE))) :
    tally slices.flatten = (slices.map tally).foldr (· + ·) default := by
  induction slices with
  | nil => rfl
  | cons slice slices ih => rw [List.flatten_cons, tally_append, ih, List.map_cons, List.foldr_cons]

theorem total_count (s : EventStats) (event : TemporalEvent V HE) :
    (s.count event).total = s.total + 1 := by
  cases event <;> simp only [count, total] <;> omega

/-- Every event is counted once. -/
theorem total_tally (events : List (TemporalEvent V HE)) :
    (tally events).total = events.length := by
  induction events using List.reverseRecOn with
  | nil => rfl
  | append_singleton events event ih =>
      rw [tally_concat, total_count, ih, List.length_append, List.length_singleton]

/-- An event is a marker or a mutation. -/
theorem snapshots_tally (events : List (TemporalEvent V HE)) :
    (events.filter TemporalEvent.isMutation).length + (tally events).snapshots =
      events.length := by
  induction events using List.reverseRecOn with
  | nil => rfl
  | append_singleton events event ih =>
      rw [tally_concat, List.filter_append, List.length_append, List.length_append,
        List.length_singleton, List.filter_singleton]
      cases event <;> simp only [count, TemporalEvent.isMutation, cond_true, cond_false,
        List.length_singleton, List.length_nil] <;> omega

end EventStats

/-! ## Questions -/

namespace EventLog

/-- Whether the log is empty. -/
def isEmpty (log : EventLog V HE) : Bool := log.events.isEmpty

/-- An event by index. -/
def get (log : EventLog V HE) (index : Nat) : Option (TemporalEvent V HE) := log.events[index]?

/-- Events at a specific timestamp. -/
def eventsAt (log : EventLog V HE) (timestamp : Timestamp) : List (TemporalEvent V HE) :=
  (log.timeIndex[timestamp]?.map fun indices ↦ indices.filterMap log.get).getD []

/-- Events up to and including a timestamp. -/
def eventsUntil (log : EventLog V HE) (timestamp : Timestamp) : List (TemporalEvent V HE) :=
  ((upTo log.timeIndex timestamp).flatMap Prod.snd).filterMap log.get

/-- The timestamp of the first event. -/
def firstTimestamp (log : EventLog V HE) : Option Timestamp := log.timeIndex.keys.head?

/-- The timestamp of the last event. -/
def lastTimestamp (log : EventLog V HE) : Option Timestamp := log.timeIndex.keys.getLast?

/-- The most recent snapshot at or before a timestamp. -/
def snapshotBefore (log : EventLog V HE) (timestamp : Timestamp) : Option (SnapshotId × Nat) :=
  (upTo log.snapshotIndex timestamp).getLast?.map Prod.snd

/-- Statistics for events in a time range. -/
def statsInRange (checksEmpty : Bool) (log : EventLog V HE) (range : TimeRange) :
    Option EventStats :=
  (log.eventsInRange checksEmpty range).map fun events ↦ events.foldl EventStats.count .default

/-- How many mutation events there are, markers excluded. -/
def mutationCount (log : EventLog V HE) : Nat :=
  (log.events.filter TemporalEvent.isMutation).length

/-- Distinct timestamps. -/
def distinctTimestamps (log : EventLog V HE) : List Timestamp := log.timeIndex.keys

/-- Clear the event log: the events, every index and the counts. -/
def clear (_ : EventLog V HE) : EventLog V HE := new

/-! ### Answers from the timestamp index -/

variable {log : EventLog V HE}

/-- At a timestamp are the events that have it. -/
theorem eventsAt_eq (t : Timestamp) :
    log.eventsAt t = log.events.filter fun e ↦ e.timestamp = t := by
  have hresolve := log.timeIndexed.resolve t
  rw [(mentions_eq_filter_iff _ t log.events).mpr fun e _ ↦
    List.count_singleton.trans_le (by split <;> omega)] at hresolve
  have hpositions : log.eventsAt t = (log.timeIndex.positions t).filterMap log.get := by
    rw [eventsAt, Postings.positions]
    cases log.timeIndex[t]? <;> rfl
  rw [hpositions]
  refine hresolve.trans (List.filter_congr fun e _ ↦ decide_eq_decide.mpr ?_)
  rw [List.mem_singleton, eq_comm]

/-- Up to a timestamp are the events that do not have a later one, in their order. -/
theorem eventsUntil_eq (t : Timestamp) :
    log.eventsUntil t =
      chronicle TemporalEvent.timestamp (log.events.filter fun e ↦ e.timestamp ≤ t) := by
  rw [eventsUntil, upTo]
  change ((log.timeIndex.toList.filter fun entry ↦ (compare entry.1 t).isLE).flatMap
    Prod.snd).filterMap (log.events[·]?) = _
  rw [log.timeIndexed.resolve_filter fun k ↦ (compare k t).isLE,
    chronicle.flatMap_filter (log.pairwise_timeIndex_keys.filter _)]
  refine congrArg (chronicle TemporalEvent.timestamp) (List.filter_congr fun e he ↦ ?_)
  rw [decide_eq_decide, List.mem_filter, and_iff_right (timestamp_mem_keys he), Std.isLE_compare]

/-- The index has the timestamps of the events. -/
theorem mem_distinctTimestamps (t : Timestamp) :
    t ∈ log.distinctTimestamps ↔ ∃ e ∈ log.events, e.timestamp = t := by
  rw [distinctTimestamps, Std.TreeMap.mem_keys, log.timeIndexed.present]
  simp only [List.mem_singleton, eq_comm]

/-- The timestamps of the index, as a set. -/
theorem setOf_mem_keys (log : EventLog V HE) :
    {t | t ∈ log.timeIndex.keys} = {t | ∃ e ∈ log.events, e.timestamp = t} :=
  Set.ext log.mem_distinctTimestamps

/-- The first timestamp is the least. -/
theorem firstTimestamp_eq_some_iff (t : Timestamp) :
    log.firstTimestamp = some t ↔ IsLeast {t | ∃ e ∈ log.events, e.timestamp = t} t := by
  rw [← setOf_mem_keys]
  exact head?_eq_some_iff_isLeast log.pairwise_timeIndex_keys t

/-- The last timestamp is the greatest. -/
theorem lastTimestamp_eq_some_iff (t : Timestamp) :
    log.lastTimestamp = some t ↔ IsGreatest {t | ∃ e ∈ log.events, e.timestamp = t} t := by
  rw [← setOf_mem_keys]
  exact getLast?_eq_some_iff_isGreatest log.pairwise_timeIndex_keys t

end EventLog

/-! ## Runs -/

/-- What is done to a log. -/
inductive LogOp (V HE : Type) where
  | append (event : TemporalEvent V HE)
  | clear

namespace EventLog

def apply (log : EventLog V HE) : LogOp V HE → EventLog V HE
  | .append event => log.append event
  | .clear => log.clear

/-- A new log, after some operations. -/
def run (ops : List (LogOp V HE)) : EventLog V HE := ops.foldl apply new

end EventLog

/-- The events appended since the last clear. -/
def sinceClear (ops : List (LogOp V HE)) : List (TemporalEvent V HE) :=
  ops.foldl (fun events op ↦ match op with
    | .append event => events ++ [event]
    | .clear => []) []

/-- The snapshot markers, each with its timestamp and its position. -/
def markers (events : List (TemporalEvent V HE)) : List (Timestamp × SnapshotId × Nat) :=
  events.zipIdx.filterMap fun
    | (.snapshotMarker timestamp snapshotId, index) => some (timestamp, snapshotId, index)
    | _ => none

theorem markers_concat (events : List (TemporalEvent V HE)) (event : TemporalEvent V HE) :
    markers (events ++ [event]) = markers events ++ match event with
      | .snapshotMarker timestamp snapshotId => [(timestamp, snapshotId, events.length)]
      | _ => [] := by
  rw [markers, List.zipIdx_append, List.filterMap_append, Nat.zero_add]
  cases event <;> rfl

/-- The snapshots and the counts of a log are those of some events. -/
structure EventLog.Holds (log : EventLog V HE) (events : List (TemporalEvent V HE)) : Prop where
  events_eq : log.events = events
  snapshots : Latest (markers events) log.snapshotIndex
  stats_eq : log.stats = .tally events

namespace EventLog.Holds

variable {log : EventLog V HE} {events : List (TemporalEvent V HE)}

theorem new : (EventLog.new : EventLog V HE).Holds [] where
  events_eq := rfl
  snapshots := .empty
  stats_eq := rfl

theorem append (h : log.Holds events) (event : TemporalEvent V HE) :
    (log.append event).Holds (events ++ [event]) where
  events_eq := by rw [EventLog.events_append, h.events_eq]
  snapshots := by
    rw [markers_concat]
    cases event with
    | snapshotMarker timestamp snapshotId =>
        change Latest _ (log.snapshotIndex.insert timestamp (snapshotId, log.events.length))
        rw [h.events_eq]
        exact h.snapshots.insert timestamp _
    | _ =>
        rw [List.append_nil]
        exact h.snapshots
  stats_eq := by
    rw [EventStats.tally_concat, ← h.stats_eq]
    rfl

theorem apply (h : log.Holds events) (op : LogOp V HE) :
    (log.apply op).Holds (match op with
      | .append event => events ++ [event]
      | .clear => []) := by
  cases op with
  | append event => exact h.append event
  | clear => exact .new

/-- A log has what was appended since the last clear. -/
theorem run (ops : List (LogOp V HE)) : (EventLog.run ops).Holds (sinceClear ops) := by
  induction ops using List.reverseRecOn with
  | nil => exact .new
  | append_singleton ops op ih =>
      rw [EventLog.run, sinceClear, List.foldl_append, List.foldl_append]
      exact ih.apply op

end EventLog.Holds

/-- The answers of a log are those a scan of some events gives. -/
structure EventLog.Answers (log : EventLog V HE) (events : List (TemporalEvent V HE)) : Prop where
  empty_iff : log.isEmpty = true ↔ events = []
  len : log.len = events.length
  get : ∀ i, log.get i = events[i]?
  eventsAt : ∀ t, log.eventsAt t = events.filter fun e ↦ e.timestamp = t
  eventsUntil : ∀ t, log.eventsUntil t =
    chronicle TemporalEvent.timestamp (events.filter fun e ↦ e.timestamp ≤ t)
  firstTimestamp : ∀ t, log.firstTimestamp = some t ↔
    IsLeast {t | ∃ e ∈ events, e.timestamp = t} t
  lastTimestamp : ∀ t, log.lastTimestamp = some t ↔
    IsGreatest {t | ∃ e ∈ events, e.timestamp = t} t
  distinctTimestamps : log.distinctTimestamps.Pairwise (· < ·) ∧
    ∀ t, t ∈ log.distinctTimestamps ↔ ∃ e ∈ events, e.timestamp = t
  /-- The last marker among those with the greatest timestamp that is not later. -/
  snapshotBefore : ∀ t, log.snapshotBefore t =
    ((chronicle Prod.fst ((markers events).filter fun m ↦ m.1 ≤ t)).getLast?).map Prod.snd
  vertexEvents : ∀ v, log.vertexEvents v = mentions TemporalEvent.vertexKeys v events
  hyperedgeEvents : ∀ h, log.hyperedgeEvents h = mentions TemporalEvent.hyperedgeKeys h events
  stats : log.stats = .tally events
  total : log.stats.total = events.length
  mutationCount : log.mutationCount + log.stats.snapshots = events.length

theorem EventLog.Holds.answers {log : EventLog V HE} {events : List (TemporalEvent V HE)}
    (h : log.Holds events) : log.Answers events := by
  obtain ⟨rfl, hsnapshots, hstats⟩ := h
  constructor
  case empty_iff => exact List.isEmpty_iff
  case len => rfl
  case get => exact fun _ ↦ rfl
  case eventsAt => exact EventLog.eventsAt_eq
  case eventsUntil => exact EventLog.eventsUntil_eq
  case firstTimestamp => exact EventLog.firstTimestamp_eq_some_iff
  case lastTimestamp => exact EventLog.lastTimestamp_eq_some_iff
  case distinctTimestamps => exact ⟨log.pairwise_timeIndex_keys, EventLog.mem_distinctTimestamps⟩
  case snapshotBefore =>
    intro t
    rw [EventLog.snapshotBefore]
    exact congrArg (Option.map Prod.snd) (hsnapshots.getLast?_upTo t)
  case vertexEvents => exact log.vertexEvents_eq
  case hyperedgeEvents => exact log.hyperedgeEvents_eq
  case stats => exact hstats
  case total => rw [hstats, EventStats.total_tally]
  case mutationCount =>
    rw [EventLog.mutationCount, hstats]
    exact EventStats.snapshots_tally _

/-- **Lookups.**  After any appends and clears a log answers as a scan of the events appended since
the last clear would. -/
theorem log_answers (ops : List (LogOp V HE)) : (EventLog.run ops).Answers (sinceClear ops) :=
  (EventLog.Holds.run ops).answers

/-- A marker at a timestamp that has one takes its place, wherever in time the log is. -/
example : (EventLog.run [.append (.snapshotMarker 5 0), .append (.graphCleared 7 0 0),
    .append (.snapshotMarker 5 1)] : EventLog Unit Unit).snapshotBefore 6 = some (1, 2) := by
  decide

/-! ## Consecutive windows -/

/-- The windows from each bound to the next. -/
def windows (bound : Timestamp) : List Timestamp → List TimeRange
  | [] => []
  | next :: bounds => .between bound next :: windows next bounds

/-- Where the last window ends. -/
def lastBound (bound : Timestamp) (bounds : List Timestamp) : Timestamp := bounds.getLastD bound

/-- Between bounds in order is the chronicle of the events from one to the other. -/
theorem eventsInRange_between (checksEmpty : Bool) (log : EventLog V HE) {s e : Timestamp}
    (h : s ≤ e) : log.eventsInRange checksEmpty (.between s e) =
      some ((chronicle TemporalEvent.timestamp log.events).filter fun event ↦
        s ≤ event.timestamp ∧ event.timestamp < e) := by
  rw [EventLog.eventsInRange_eq (Or.inl ((TimeRange.between s e).upright_iff.mpr h)),
    chronicle.filter_chronicle]
  rfl

theorem le_lastBound {bound : Timestamp} {bounds : List Timestamp}
    (h : (bound :: bounds).Pairwise (· ≤ ·)) : bound ≤ lastBound bound bounds := by
  cases bounds with
  | nil => exact le_rfl
  | cons next bounds =>
      rw [lastBound, List.getLastD_cons]
      exact (List.pairwise_cons.mp h).1 _ List.getLastD_mem_cons

/-- Answers that are computed from others are there when the others are. -/
theorem mapM_option_map {α β γ : Type} (f : α → Option β) (g : β → γ) (l : List α) :
    (l.mapM fun a ↦ (f a).map g) = (l.mapM f).map (List.map g) := by
  induction l with
  | nil => rfl
  | cons a l ih =>
      rw [List.mapM_cons, List.mapM_cons, ih]
      cases f a <;> cases l.mapM f <;> rfl

/-- Lookups over consecutive windows give the lookup over all of them, cut into pieces. -/
theorem exists_slices (checksEmpty : Bool) (log : EventLog V HE) {bound : Timestamp}
    {bounds : List Timestamp} (h : (bound :: bounds).Pairwise (· ≤ ·)) :
    ∃ slices, (windows bound bounds).mapM (log.eventsInRange checksEmpty) = some slices ∧
      log.eventsInRange checksEmpty (.between bound (lastBound bound bounds)) =
        some slices.flatten := by
  induction bounds generalizing bound with
  | nil =>
      refine ⟨[], rfl, ?_⟩
      rw [lastBound, List.getLastD_nil, eventsInRange_between checksEmpty log le_rfl,
        Option.some_inj]
      refine List.filter_eq_nil_iff.mpr fun event _ hin ↦ ?_
      obtain ⟨hstart, hend⟩ := of_decide_eq_true hin
      exact hend.not_ge hstart
  | cons next bounds ih =>
      have hnext : bound ≤ next := (List.pairwise_cons.mp h).1 next List.mem_cons_self
      have hlast : next ≤ lastBound next bounds := le_lastBound h.of_cons
      obtain ⟨slices, hslices, hwhole⟩ := ih h.of_cons
      rw [eventsInRange_between checksEmpty log hlast, Option.some_inj] at hwhole
      have hfirst := eventsInRange_between checksEmpty log hnext
      refine ⟨((chronicle TemporalEvent.timestamp log.events).filter fun event ↦
        bound ≤ event.timestamp ∧ event.timestamp < next) :: slices, ?_, ?_⟩
      · rw [windows, List.mapM_cons, hfirst, hslices]
        rfl
      · have hbounds : lastBound bound (next :: bounds) = lastBound next bounds :=
          List.getLastD_cons
        rw [hbounds, eventsInRange_between checksEmpty log (hnext.trans hlast), Option.some_inj,
          List.flatten_cons, ← hwhole,
          chronicle.filter_append_filter (chronicle.pairwise TemporalEvent.timestamp log.events)]
        · refine List.filter_congr fun event _ ↦ ?_
          rw [Bool.eq_iff_iff, Bool.or_eq_true, decide_eq_true_iff, decide_eq_true_iff,
            decide_eq_true_iff]
          constructor
          · rintro ⟨hstart, hend⟩
            exact (lt_or_ge event.timestamp next).imp (⟨hstart, ·⟩) (⟨·, hend⟩)
          · rintro (⟨hstart, hend⟩ | ⟨hstart, hend⟩)
            · exact ⟨hstart, hend.trans_le hlast⟩
            · exact ⟨hnext.trans hstart, hend⟩
        · intro a b ha hb
          exact (of_decide_eq_true ha).2.trans_le (of_decide_eq_true hb).1

/-- **Windows.**  Lookups over consecutive windows give, one after the other, the lookup from the
first bound to the last, and their counts add up to its counts. -/
theorem windows_tile (checksEmpty : Bool) (log : EventLog V HE) {bound : Timestamp}
    {bounds : List Timestamp} (h : (bound :: bounds).Pairwise (· ≤ ·)) :
    ((windows bound bounds).mapM (log.eventsInRange checksEmpty)).map List.flatten =
        log.eventsInRange checksEmpty (.between bound (lastBound bound bounds)) ∧
      ((windows bound bounds).mapM (log.statsInRange checksEmpty)).map
          (List.foldr (· + ·) .default) =
        log.statsInRange checksEmpty (.between bound (lastBound bound bounds)) := by
  obtain ⟨slices, hslices, hwhole⟩ := exists_slices checksEmpty log h
  refine ⟨by rw [hslices, hwhole]; rfl, ?_⟩
  have hstats : (windows bound bounds).mapM (log.statsInRange checksEmpty) =
      some (slices.map EventStats.tally) :=
    (mapM_option_map _ _ _).trans (congrArg (Option.map _) hslices)
  rw [hstats, EventLog.statsInRange, hwhole]
  exact congrArg some (EventStats.tally_flatten slices).symm

/-- Three events, two of them at one timestamp. -/
def threeEvents : List (TemporalEvent Unit Unit) :=
  [.graphCleared 3 0 0, .graphCleared 4 0 0, .snapshotMarker 4 0]

theorem windows_tile_a_log :
    (([1, 4, 9] : List Timestamp).Pairwise (· ≤ ·)) ∧
      ((windows 1 [4, 9]).mapM ((EventLog.ofEvents threeEvents).eventsInRange true)).map
        List.flatten = some threeEvents := by
  have hbounds : ([1, 4, 9] : List Timestamp).Pairwise (· ≤ ·) := by decide
  have hordered : chronicle TemporalEvent.timestamp threeEvents = threeEvents :=
    chronicle.of_pairwise _ (by decide)
  refine ⟨hbounds, (windows_tile true _ hbounds).1.trans ?_⟩
  rw [lastBound, List.getLastD_cons, List.getLastD_cons, List.getLastD_nil,
    eventsInRange_between true _ (by decide), EventLog.events_ofEvents, hordered]
  decide

end Koalisi.Topology
