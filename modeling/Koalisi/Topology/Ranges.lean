import Koalisi.Lib.Chronicle
import Koalisi.Topology.EventLog

/-!
# Events in a time range

A range lookup goes through the timestamp index: the range's missing ends are filled
in with the least and the greatest timestamp, the index is read between the two, and
the positions found are looked up in the log.

What comes back is the chronicle of the events between the two bounds
(`eventsInRange_eq`).  That is not always the chronicle of the range.  The greatest
timestamp stands for a missing end, but the bound is exclusive, so an event that has
it is left out; and bounds the wrong way round are not empty, they panic.
-/

namespace Koalisi.Topology

open Koalisi.Lib

variable {V HE : Type}

instance Timestamp.lawfulOrderOrd : Std.LawfulOrderOrd Timestamp where
  isLE_compare _ _ := Nat.isLE_compare
  isGE_compare _ _ := Nat.isGE_compare

namespace EventLog

/-- Events in a time range; `none` is a panic. -/
def eventsInRange (checksEmpty : Bool) (log : EventLog V HE) (range : TimeRange) :
    Option (List (TemporalEvent V HE)) :=
  let start := range.start.getD Timestamp.epoch
  let stop := range.stop.getD Timestamp.max
  (log.timeIndex.range checksEmpty start stop).map fun entries ↦
    (entries.flatMap Prod.snd).filterMap (log.events[·]?)

/-- Every event's timestamp is in the index. -/
theorem timestamp_mem_keys {log : EventLog V HE} {event : TemporalEvent V HE}
    (h : event ∈ log.events) : event.timestamp ∈ log.timeIndex.keys :=
  Std.TreeMap.mem_keys.mpr
    ((log.timeIndexed.present _).mpr ⟨event, h, List.mem_singleton_self _⟩)

/-- The index goes up through the timestamps. -/
theorem pairwise_timeIndex_keys (log : EventLog V HE) : log.timeIndex.keys.Pairwise (· < ·) :=
  Std.TreeMap.ordered_keys.imp Std.compare_eq_lt.mp

/-- The index is empty when no event was appended. -/
theorem timeIndex_isEmpty_iff (log : EventLog V HE) :
    log.timeIndex.isEmpty = false ↔ log.events ≠ [] := by
  rw [← Bool.not_eq_true, log.timeIndexed.isEmpty_iff fun _ ↦ List.cons_ne_nil _ _]

/-- The bounds of a lookup are the wrong way round when those of its range are. -/
theorem compare_bounds (range : TimeRange) :
    compare (range.start.getD Timestamp.epoch) (range.stop.getD Timestamp.max) = .gt ↔
      ¬ range.Upright := by
  rw [range.upright_iff, not_le]
  exact Std.compare_eq_gt

/-- A lookup whose bounds are the wrong way round panics. -/
theorem eventsInRange_panic {checksEmpty : Bool} {log : EventLog V HE} {range : TimeRange}
    (hup : ¬ range.Upright) (hlog : checksEmpty = true ∨ log.events ≠ []) :
    log.eventsInRange checksEmpty range = none := by
  rw [eventsInRange, Postings.range, if_pos, Option.map_none]
  exact ⟨(compare_bounds range).mpr hup, hlog.imp_right (timeIndex_isEmpty_iff log).mpr⟩

/-- Any other lookup gives the chronicle of the events between its bounds. -/
theorem eventsInRange_eq {checksEmpty : Bool} {log : EventLog V HE} {range : TimeRange}
    (h : range.Upright ∨ (log.events = [] ∧ checksEmpty = false)) :
    log.eventsInRange checksEmpty range =
      some (chronicle TemporalEvent.timestamp (log.events.filter fun e ↦
        range.start.getD Timestamp.epoch ≤ e.timestamp ∧
          e.timestamp < range.stop.getD Timestamp.max)) := by
  rw [eventsInRange, Postings.range, if_neg, Option.map_some,
    log.timeIndexed.resolve_filter fun t ↦
      (compare (range.start.getD Timestamp.epoch) t).isLE &&
        (compare t (range.stop.getD Timestamp.max)).isLT,
    chronicle.flatMap_filter (log.pairwise_timeIndex_keys.filter _)]
  · refine congrArg (some ∘ chronicle TemporalEvent.timestamp) (List.filter_congr fun e he ↦ ?_)
    have hlt : (compare e.timestamp (range.stop.getD Timestamp.max)).isLT = true ↔
        e.timestamp < range.stop.getD Timestamp.max := by
      rw [Ordering.isLT_iff_eq_lt, Std.compare_eq_lt]
    rw [Bool.eq_iff_iff, decide_eq_true_iff, decide_eq_true_iff, List.mem_filter,
      and_iff_right (timestamp_mem_keys he), Bool.and_eq_true, Std.isLE_compare, hlt]
  · rintro ⟨hgt, hlog⟩
    rcases h with hup | ⟨hnil, hchecks⟩
    · exact (compare_bounds range).mp hgt hup
    · rcases hlog with hc | hne
      · exact Bool.noConfusion (hchecks.symm.trans hc)
      · exact (timeIndex_isEmpty_iff log).mp hne hnil

end EventLog

/-- A timestamp is in a range with an end when it is between the range's bounds; without one, the
greatest timestamp is in the range and not between the bounds. -/
theorem TimeRange.contains_iff (range : TimeRange) (t : Timestamp) :
    range.contains t = true ↔ range.start.getD Timestamp.epoch ≤ t ∧
      (t < range.stop.getD Timestamp.max ∨ (range.stop = none ∧ t = Timestamp.max)) := by
  have hmax : t < Timestamp.max ∨ t = Timestamp.max := (Timestamp.le_max t).lt_or_eq
  obtain ⟨_ | s, _ | e⟩ := range <;> simp [contains, Timestamp.epoch_le, hmax]

/-- An event with the greatest timestamp is in a range without an end, but never in the answer. -/
theorem eventsInRange_ne_of_max {checksEmpty : Bool} {log : EventLog V HE} {range : TimeRange}
    (hok : range.Upright ∨ (log.events = [] ∧ checksEmpty = false)) (hstop : range.stop = none)
    {e : TemporalEvent V HE} (he : e ∈ log.events) (hmax : e.timestamp = Timestamp.max) :
    log.eventsInRange checksEmpty range ≠
      some (chronicle TemporalEvent.timestamp
        (log.events.filter fun e ↦ range.contains e.timestamp)) := by
  intro heq
  rw [EventLog.eventsInRange_eq hok, Option.some_inj] at heq
  have hcontains : range.contains e.timestamp = true := by
    rw [TimeRange.contains_iff, hmax]
    exact ⟨Timestamp.le_max _, Or.inr ⟨hstop, rfl⟩⟩
  have hmem : e ∈ chronicle TemporalEvent.timestamp
      (log.events.filter fun e ↦ range.contains e.timestamp) :=
    (chronicle.mem_iff _).mpr (List.mem_filter.mpr ⟨he, hcontains⟩)
  rw [← heq, chronicle.mem_iff, List.mem_filter, decide_eq_true_iff, hstop, hmax] at hmem
  exact lt_irrefl _ hmem.2.2

/-- **Ranges.**  A range lookup gives the events of the range, in the order of their timestamps
and as appended within one, exactly when the range's bounds are in order (an empty index may
forgive them) and no event has the greatest timestamp, if the range has no end. -/
theorem eventsInRange_exact_iff (checksEmpty : Bool) (log : EventLog V HE) (range : TimeRange) :
    log.eventsInRange checksEmpty range =
        some (chronicle TemporalEvent.timestamp
          (log.events.filter fun e ↦ range.contains e.timestamp)) ↔
      (range.Upright ∨ (log.events = [] ∧ checksEmpty = false)) ∧
        (range.stop = none → ∀ e ∈ log.events, e.timestamp ≠ Timestamp.max) := by
  by_cases hok : range.Upright ∨ (log.events = [] ∧ checksEmpty = false)
  · rw [and_iff_right hok]
    constructor
    · intro heq hstop e he hmax
      exact eventsInRange_ne_of_max hok hstop he hmax heq
    · intro hmax
      rw [EventLog.eventsInRange_eq hok, Option.some_inj]
      refine congrArg (chronicle TemporalEvent.timestamp) (List.filter_congr fun e he ↦ ?_)
      rw [Bool.eq_iff_iff, decide_eq_true_iff, TimeRange.contains_iff]
      refine and_congr_right fun _ ↦ (or_iff_left fun hlast ↦ ?_).symm
      exact hmax hlast.1 e he hlast.2
  · rw [not_or, not_and_or, Bool.not_eq_false] at hok
    rw [EventLog.eventsInRange_panic hok.1 hok.2.symm]
    refine iff_of_false (fun h ↦ Option.some_ne_none _ h.symm) fun hgood ↦ ?_
    rcases hgood.1 with hup | ⟨hnil, hchecks⟩
    · exact hok.1 hup
    · rcases hok.2 with hne | hc
      · exact hne hnil
      · exact Bool.noConfusion (hchecks.symm.trans hc)

/-- A lookup from 2 to 1 panics on a log with one event, and a lookup over all time misses an
event that has the greatest timestamp. -/
theorem range_inverted_or_unbounded :
    (¬ ∀ (log : EventLog Unit Unit) (range : TimeRange), log.eventsInRange true range =
      some (chronicle TemporalEvent.timestamp
        (log.events.filter fun e ↦ range.contains e.timestamp))) ∧
    ¬ ∀ (log : EventLog Unit Unit) (range : TimeRange), log.eventsInRange false range =
      some (chronicle TemporalEvent.timestamp
        (log.events.filter fun e ↦ range.contains e.timestamp)) := by
  constructor
  · intro hall
    have hlog := hall (.ofEvents [.vertexAdded 1 0 ()]) (.between 2 1)
    rw [EventLog.eventsInRange_panic (fun h ↦ absurd (h 2 rfl 1 rfl) (by decide)) (Or.inl rfl)]
      at hlog
    exact Option.some_ne_none _ hlog.symm
  · intro hall
    have hup : TimeRange.all.Upright := TimeRange.all.upright_iff.mpr (Timestamp.epoch_le _)
    have hmem : TemporalEvent.vertexAdded Timestamp.max 0 () ∈
        (EventLog.ofEvents [TemporalEvent.vertexAdded Timestamp.max 0 ()] :
          EventLog Unit Unit).events := by
      rw [EventLog.events_ofEvents]
      exact List.mem_cons_self
    exact eventsInRange_ne_of_max (Or.inl hup) rfl hmem rfl (hall _ .all)

end Koalisi.Topology
