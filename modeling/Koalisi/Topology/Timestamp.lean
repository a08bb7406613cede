import Mathlib.Order.Fin.Basic
import Mathlib.Tactic.Linarith

/-!
# Timestamps and the logical clock

A timestamp is a raw `u64`, and a clock is one atomic `u64` counter: a tick hands
out the current value and increments it, wrapping at `2 ^ 64` as `fetch_add`
does.  A time range is half-open, and either of its ends may be missing.

Whether two ranges overlap is decided by comparing where one starts with where the
other ends.  It is not asked whether a range ends before it starts, and the greatest
timestamp stands for a missing end though no timestamp is after it.
-/

namespace Koalisi.Topology

/-- A `u64`. -/
abbrev U64 := Fin (2 ^ 64)

instance U64.neZero : NeZero (2 ^ 64) := ⟨by decide⟩

/-- A logical timestamp. -/
abbrev Timestamp := U64

namespace Timestamp

/-- The epoch timestamp. -/
def epoch : Timestamp := 0

/-- The maximum possible timestamp. -/
def max : Timestamp := Fin.last (2 ^ 64 - 1)

theorem epoch_le (t : Timestamp) : epoch ≤ t := Nat.zero_le _

theorem le_max (t : Timestamp) : t ≤ max := Nat.le_of_lt_succ t.isLt

end Timestamp

/-- A range of timestamps, half-open. -/
structure TimeRange where
  /-- The start of the range, inclusive; `none` means unbounded. -/
  start : Option Timestamp
  /-- The end of the range, exclusive; `none` means unbounded. -/
  stop : Option Timestamp
deriving DecidableEq, Repr

namespace TimeRange

/-- An unbounded range. -/
def all : TimeRange := ⟨none, none⟩

/-- A bounded range. -/
def between (start stop : Timestamp) : TimeRange := ⟨some start, some stop⟩

/-- Whether a timestamp is within the range. -/
def contains (range : TimeRange) (timestamp : Timestamp) : Bool :=
  let afterStart := match range.start with
    | some s => decide (s ≤ timestamp)
    | none => true
  let beforeEnd := match range.stop with
    | some e => decide (timestamp < e)
    | none => true
  afterStart && beforeEnd

/-- Whether the range overlaps with another. -/
def overlaps (range other : TimeRange) : Bool :=
  let start1 := range.start.getD Timestamp.epoch
  let end1 := range.stop.getD Timestamp.max
  let start2 := other.start.getD Timestamp.epoch
  let end2 := other.stop.getD Timestamp.max
  decide (start1 < end2) && decide (start2 < end1)

/-- The end of the range is not before its start. -/
def Upright (range : TimeRange) : Prop :=
  ∀ s ∈ range.start, ∀ e ∈ range.stop, s ≤ e

/-- A range is upright when the bounds that stand for its missing ends are in order. -/
theorem upright_iff (range : TimeRange) :
    range.Upright ↔ range.start.getD Timestamp.epoch ≤ range.stop.getD Timestamp.max := by
  obtain ⟨_ | s, _ | e⟩ := range
  · exact iff_of_true (by simp [Upright]) (Timestamp.epoch_le _)
  · exact iff_of_true (by simp [Upright]) (Timestamp.epoch_le _)
  · exact iff_of_true (by simp [Upright]) (Timestamp.le_max _)
  · simp [Upright]

/-! ## Overlap -/

/-- A timestamp is within a range from its start on, until it ends. -/
theorem contains_iff_forall (range : TimeRange) (t : Timestamp) :
    range.contains t = true ↔
      range.start.getD Timestamp.epoch ≤ t ∧ ∀ e ∈ range.stop, t < e := by
  obtain ⟨_ | s, _ | e⟩ := range <;> simp [contains, Timestamp.epoch_le]

/-- There is a timestamp within two ranges when both have started before either ends. -/
theorem exists_contains_iff (a b : TimeRange) :
    (∃ t, a.contains t = true ∧ b.contains t = true) ↔
      ∀ e, e ∈ a.stop ∨ e ∈ b.stop →
        a.start.getD Timestamp.epoch < e ∧ b.start.getD Timestamp.epoch < e := by
  constructor
  · rintro ⟨t, ha, hb⟩ e he
    rw [contains_iff_forall] at ha hb
    have hlt : t < e := he.elim (ha.2 e) (hb.2 e)
    exact ⟨ha.1.trans_lt hlt, hb.1.trans_lt hlt⟩
  · intro h
    -- the later of the two starts
    refine ⟨a.start.getD Timestamp.epoch ⊔ b.start.getD Timestamp.epoch, ?_, ?_⟩
    · rw [contains_iff_forall]
      exact ⟨le_sup_left, fun e he ↦ sup_lt_iff.mpr (h e (.inl he))⟩
    · rw [contains_iff_forall]
      exact ⟨le_sup_right, fun e he ↦ sup_lt_iff.mpr (h e (.inr he))⟩

theorem overlaps_iff (a b : TimeRange) :
    a.overlaps b = true ↔
      a.start.getD Timestamp.epoch < b.stop.getD Timestamp.max ∧
        b.start.getD Timestamp.epoch < a.stop.getD Timestamp.max := by
  rw [overlaps, Bool.and_eq_true, decide_eq_true_iff, decide_eq_true_iff]

theorem overlaps_comm (a b : TimeRange) : a.overlaps b = b.overlaps a := Bool.and_comm _ _

/-- The range ends before or where it starts, and both are inside of another range. -/
def EmptyWithin (range other : TimeRange) : Prop :=
  ∃ e ∈ range.stop, e ≤ range.start.getD Timestamp.epoch ∧
    other.start.getD Timestamp.epoch < e ∧
    range.start.getD Timestamp.epoch < other.stop.getD Timestamp.max

/-- An empty range overlaps with what it lies inside of. -/
theorem EmptyWithin.overlaps {a b : TimeRange} (h : a.EmptyWithin b) : a.overlaps b = true := by
  obtain ⟨e, he, -, hafter, hbefore⟩ := h
  rw [overlaps_iff, Option.mem_def.mp he]
  exact ⟨hbefore, hafter⟩

/-- There is nothing in an empty range. -/
theorem EmptyWithin.not_contains {a b : TimeRange} (h : a.EmptyWithin b) (t : Timestamp) :
    a.contains t ≠ true := by
  obtain ⟨e, he, hle, -⟩ := h
  rw [ne_eq, contains_iff_forall]
  rintro ⟨hstart, hstop⟩
  exact absurd (hstart.trans_lt (hstop e he)) hle.not_gt

/-- If a range that is not empty overlaps with another, both have started before it ends. -/
theorem lt_of_overlaps {a b : TimeRange} (h : a.overlaps b = true) (hne : ¬ a.EmptyWithin b)
    {e : Timestamp} (he : e ∈ a.stop) :
    a.start.getD Timestamp.epoch < e ∧ b.start.getD Timestamp.epoch < e := by
  rw [overlaps_iff, Option.mem_def.mp he] at h
  refine ⟨?_, h.2⟩
  by_contra hle
  exact hne ⟨e, he, not_lt.mp hle, h.2, h.1⟩

/-- A range starts before another ends, if a timestamp is within both and it does not start with
the greatest timestamp when neither has an end. -/
theorem lt_of_exists_contains {a b : TimeRange}
    (h : ∃ t, a.contains t = true ∧ b.contains t = true)
    (hmax : a.stop = none → b.stop = none → a.start ≠ some Timestamp.max) :
    a.start.getD Timestamp.epoch < b.stop.getD Timestamp.max := by
  rw [exists_contains_iff] at h
  cases hb : b.stop with
  | some e => exact (h e (.inr hb)).1
  | none =>
      refine lt_of_le_of_ne (Timestamp.le_max _) fun heq ↦ ?_
      cases ha : a.stop with
      | some e =>
          -- the end would be after the greatest timestamp
          have hlt := (h e (.inl ha)).1
          rw [heq] at hlt
          exact absurd (Timestamp.le_max e) hlt.not_ge
      | none =>
          refine hmax ha hb ?_
          cases hs : a.start with
          | some s =>
              rw [hs] at heq
              exact congrArg some heq
          | none =>
              rw [hs] at heq
              exact absurd heq (by decide)

end TimeRange

/-- **Overlap.**  Two ranges overlap just when a timestamp is within both, unless one of them is
empty and inside of the other, or neither has an end and one starts with the greatest timestamp. -/
theorem overlaps_exact_iff (a b : TimeRange) :
    (a.overlaps b = true ↔ ∃ t, a.contains t = true ∧ b.contains t = true) ↔
      ¬ a.EmptyWithin b ∧ ¬ b.EmptyWithin a ∧
        (a.stop = none → b.stop = none →
          a.start ≠ some Timestamp.max ∧ b.start ≠ some Timestamp.max) := by
  constructor
  · intro hexact
    refine ⟨fun hempty ↦ ?_, fun hempty ↦ ?_, fun ha hb ↦ ?_⟩
    · obtain ⟨t, hat, -⟩ := hexact.mp hempty.overlaps
      exact hempty.not_contains t hat
    · obtain ⟨t, -, hbt⟩ := hexact.mp ((a.overlaps_comm b).trans hempty.overlaps)
      exact hempty.not_contains t hbt
    · -- without ends the greatest timestamp is in both
      have hover : a.overlaps b = true := by
        rw [hexact, TimeRange.exists_contains_iff, ha, hb]
        rintro e (he | he) <;> cases he
      rw [TimeRange.overlaps_iff, ha, hb] at hover
      constructor
      · intro hs
        rw [hs] at hover
        exact lt_irrefl _ hover.1
      · intro hs
        rw [hs] at hover
        exact lt_irrefl _ hover.2
  · rintro ⟨hab, hba, hmax⟩
    constructor
    · intro hover
      rw [TimeRange.exists_contains_iff]
      rintro e (he | he)
      · exact TimeRange.lt_of_overlaps hover hab he
      · exact (TimeRange.lt_of_overlaps ((b.overlaps_comm a).trans hover) hba he).symm
    · rintro ⟨t, hat, hbt⟩
      rw [TimeRange.overlaps_iff]
      constructor
      · exact TimeRange.lt_of_exists_contains ⟨t, hat, hbt⟩ fun ha hb ↦ (hmax ha hb).1
      · exact TimeRange.lt_of_exists_contains ⟨t, hbt, hat⟩ fun hb ha ↦ (hmax ha hb).2

/-- All time overlaps with the empty range at 5, and not with the range from the greatest timestamp
on, which has that timestamp in it. -/
theorem all_overlaps_empty_not_last :
    ¬ ((TimeRange.between 5 5).overlaps .all = true ↔
        ∃ t, (TimeRange.between 5 5).contains t = true ∧ TimeRange.all.contains t = true) ∧
      ¬ ((TimeRange.mk (some Timestamp.max) none).overlaps .all = true ↔
        ∃ t, (TimeRange.mk (some Timestamp.max) none).contains t = true ∧
          TimeRange.all.contains t = true) := by
  constructor
  · intro hexact
    have hempty : (TimeRange.between 5 5).EmptyWithin .all :=
      ⟨5, rfl, le_rfl, by decide, by decide⟩
    obtain ⟨t, ht, -⟩ := hexact.mp hempty.overlaps
    exact hempty.not_contains t ht
  · intro hexact
    have hover := hexact.mpr ⟨Timestamp.max, by decide, by decide⟩
    rw [TimeRange.overlaps_iff] at hover
    exact lt_irrefl _ hover.1

/-- A logical clock for generating timestamps. -/
structure Clock where
  counter : U64
deriving DecidableEq, Repr

namespace Clock

/-- A new clock, at 0. -/
def new : Clock := ⟨0⟩

/-- A clock at a specific value. -/
def startingAt (value : U64) : Clock := ⟨value⟩

/-- The next timestamp, and the clock after it. -/
def tick (c : Clock) : Timestamp × Clock := (c.counter, ⟨c.counter + 1⟩)

/-- The current timestamp, without a tick. -/
def current (c : Clock) : Timestamp := c.counter

@[simp] theorem new_current : new.current = 0 := rfl
@[simp] theorem startingAt_current (value : U64) : (startingAt value).current = value := rfl
@[simp] theorem tick_fst (c : Clock) : c.tick.1 = c.current := rfl

/-- Below the top of the counter's range a tick adds one. -/
theorem tick_val {c : Clock} (h : c.current.val < 2 ^ 64 - 1) :
    c.tick.2.current.val = c.current.val + 1 := by
  change (c.counter + 1).val = c.counter.val + 1
  rw [Fin.val_add]
  exact Nat.mod_eq_of_lt (by change c.counter.val + 1 < _; change c.counter.val < _ at h; omega)

end Clock

end Koalisi.Topology
