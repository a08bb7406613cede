import Mathlib.Data.List.DropRight
import Mathlib.Data.List.Range

/-!
# Reading a bounded window with a cursor

A writer numbers its items from 1 and keeps the last few of them in a window.  A reader
asks for what is in the window behind its cursor, takes as much of it as it likes from the
front, and moves the cursor to the last number it took.

The reader may miss items, but not without noticing: it takes each number at most once
and in order, and every number that the cursor has passed and that was never taken lies
between a cursor and the first number taken there (`Tracked.read`).
-/

namespace Koalisi.Lib.Cursor

/-! ## The window -/

section Window

variable {α : Type*} {cap : Nat}

/-- Write behind a window; the first item makes room if the window is full. -/
def slide (cap : Nat) (window : List α) (item : α) : List α :=
  (if window.length = cap then window.tail else window) ++ [item]

/-- The window holds the last `cap` items. -/
theorem slide_rtake (hcap : 1 ≤ cap) (items : List α) (item : α) :
    slide cap (items.rtake cap) item = (items ++ [item]).rtake cap := by
  obtain ⟨c, rfl⟩ := Nat.exists_eq_add_of_le' hcap
  rw [List.rtake_concat_succ, slide]
  congr 1
  have hlength : (items.rtake (c + 1)).length = items.length - (items.length - (c + 1)) := by
    rw [List.rtake, List.length_drop]
  split
  · rw [List.rtake, List.rtake, List.tail_drop]
    congr 1
    omega
  · rw [List.rtake, List.rtake]
    congr 1
    omega

/-- The numbers in the window. -/
theorem rtake_range' (n : Nat) :
    (List.range' 1 n).rtake cap = List.range' (n + 1 - min n cap) (min n cap) := by
  rw [List.rtake, List.length_range', List.drop_range']
  congr 1 <;> omega

/-- The numbers behind a cursor. -/
theorem filter_range' (since start n : Nat) :
    (List.range' start n).filter (since < ·) =
      List.range' (max start (since + 1)) (start + n - max start (since + 1)) := by
  induction n generalizing start with
  | zero =>
      rw [List.range'_zero, List.filter_nil, Nat.sub_eq_zero_of_le (by omega), List.range'_zero]
  | succ n ih =>
      rw [List.range'_succ, List.filter_cons, ih]
      by_cases h : since < start
      · rw [if_pos (decide_eq_true h), Nat.max_eq_left (by omega), Nat.max_eq_left (by omega),
          show start + (n + 1) - start = n + 1 by omega,
          show start + 1 + n - (start + 1) = n by omega, List.range'_succ]
      · rw [if_neg (by simpa using h), Nat.max_eq_right (by omega), Nat.max_eq_right (by omega),
          Nat.add_right_comm, Nat.add_assoc]

end Window

/-! ## The reader -/

/-- What is taken behind a cursor. -/
structure Reading where
  since : Nat
  batch : List Nat
deriving DecidableEq, Repr

namespace Reading

/-- Where the cursor is moved. -/
def next (reading : Reading) : Nat := reading.batch.getLast?.getD reading.since

/-- What is taken is without gaps, and behind the cursor. -/
def Dense (reading : Reading) : Prop :=
  ∃ first n, reading.batch = List.range' first n ∧ reading.since < first

/-- A number lies between the cursor and the first one taken, which shows. -/
def Skips (reading : Reading) (seq : Nat) : Prop :=
  reading.since < seq ∧ ∃ first, reading.batch.head? = some first ∧ seq < first

/-- A gap shows at the first number. -/
theorem Skips.shows {reading : Reading} {seq : Nat} (h : reading.Skips seq) :
    ∃ first, reading.batch.head? = some first ∧ reading.since + 1 < first := by
  obtain ⟨hsince, first, hfirst, hlt⟩ := h
  exact ⟨first, hfirst, by omega⟩

/-- The front of a batch is as good as the batch. -/
theorem Dense.take {since : Nat} {batch : List Nat} (h : Dense ⟨since, batch⟩) (limit : Nat) :
    Dense ⟨since, batch.take limit⟩ := by
  obtain ⟨first, n, rfl, hlt⟩ := h
  rcases Nat.le_total n limit with hle | hle
  · exact ⟨first, n, List.take_range'_of_length_le hle, hlt⟩
  · exact ⟨first, limit, List.take_range'_of_length_ge hle, hlt⟩

/-- What is behind a cursor in a window. -/
theorem dense_filter (since start n : Nat) :
    Dense ⟨since, (List.range' start n).filter (since < ·)⟩ :=
  ⟨_, _, filter_range' since start n, Nat.le_max_right start (since + 1)⟩

end Reading

/-- The numbers taken. -/
def delivered (readings : List Reading) : List Nat := readings.flatMap Reading.batch

/-- A reader that started behind the number `start`, with what it has taken so far. -/
structure Tracked (start cursor : Nat) (readings : List Reading) : Prop where
  le : start ≤ cursor
  /-- Each number is taken at most once, and in order. -/
  sorted : (delivered readings).Pairwise (· < ·)
  bounds : ∀ seq ∈ delivered readings, start < seq ∧ seq ≤ cursor
  /-- What was not taken was skipped. -/
  skipped : ∀ seq, start < seq → seq ≤ cursor → seq ∉ delivered readings →
    ∃ reading ∈ readings, reading.Skips seq

theorem tracked_nil (start : Nat) : Tracked start start [] where
  le := Nat.le_refl start
  sorted := .nil
  bounds _ h := nomatch h
  skipped _ h h' := absurd h (by omega)

/-- One more reading. -/
theorem Tracked.read {start cursor : Nat} {readings : List Reading} {batch : List Nat}
    (h : Tracked start cursor readings) (hdense : Reading.Dense ⟨cursor, batch⟩) :
    Tracked start (Reading.next ⟨cursor, batch⟩) (readings ++ [⟨cursor, batch⟩]) := by
  obtain ⟨first, n, rfl, hlt⟩ := hdense
  have hdelivered : delivered (readings ++ [⟨cursor, List.range' first n⟩]) =
      delivered readings ++ List.range' first n := by
    rw [delivered, List.flatMap_append, List.flatMap_singleton, delivered]
  have hle := h.le
  have hlt' : cursor < first := hlt
  -- the cursor is moved to the last number, if there is one
  have hnext : Reading.next ⟨cursor, List.range' first n⟩ =
      if n = 0 then cursor else first + n - 1 := by
    rw [Reading.next, List.getLast?_range']
    split <;> rfl
  rw [hnext]
  constructor
  · split <;> omega
  · rw [hdelivered, List.pairwise_append]
    refine ⟨h.sorted, List.pairwise_lt_range', fun a ha b hb ↦ ?_⟩
    have := (h.bounds a ha).2
    have := List.mem_range'_1.mp hb
    omega
  · intro seq hseq
    rw [hdelivered, List.mem_append, List.mem_range'_1] at hseq
    rcases hseq with hold | hnew
    · have := h.bounds seq hold
      split <;> omega
    · split <;> omega
  · intro seq hstart hcursor hseq
    rw [hdelivered, List.mem_append, List.mem_range'_1, not_or] at hseq
    by_cases hold : seq ≤ cursor
    · obtain ⟨reading, hmem, hskips⟩ := h.skipped seq hstart hold hseq.1
      exact ⟨reading, List.mem_append_left _ hmem, hskips⟩
    · refine ⟨_, List.mem_append_right _ (List.mem_singleton_self _), Nat.lt_of_not_le hold, first,
        ?_, ?_⟩
      · rw [List.head?_range', if_neg]
        rintro rfl
        exact hold hcursor
      · split at hcursor <;> omega

end Koalisi.Lib.Cursor
