import Mathlib.Algebra.Field.Rat
import Mathlib.Data.List.DropRight

/-!
# Monitors

A monitor keeps the last samples of its key, up to a capacity, and a view of the newest one.
Each sample of its key becomes an update; a sample of another key is dropped.

The oldest sample makes room for the next one when there are as many as the capacity says.
Without any capacity there is no oldest sample to go when the first one comes; from then on there
are more than the capacity says, and none of them goes.  With room for one sample at least the
monitor keeps what it should (`keepsLast_iff`).
-/

namespace Koalisi.Ingest

/-! ## Samples -/

/-- A time-ordered observation with a key. -/
class Sample (S : Type) where
  Key : Type
  View : Type
  decidableEqKey : DecidableEq Key
  key : S → Key
  /-- Unix epoch milliseconds. -/
  timestampMs : S → Int64
  view : S → View

attribute [reducible, instance] Sample.decidableEqKey

/-- An observation of a numeric series. -/
structure NumericSample (F : Type) where
  /-- The key of the series. -/
  series : String
  value : F
  timestampMs : Int64
deriving DecidableEq

structure NumericView (F : Type) where
  value : F
  timestampMs : Int64
deriving DecidableEq

instance NumericSample.sample (F : Type) : Sample (NumericSample F) where
  Key := String
  View := NumericView F
  decidableEqKey := inferInstance
  key s := s.series
  timestampMs s := s.timestampMs
  view s := ⟨s.value, s.timestampMs⟩

variable {S : Type} [Sample S]

open Sample

/-! ## A monitor -/

structure SampleMonitor (S : Type) [Sample S] where
  key : Key S
  history : List S
  historyCapacity : Nat
  latest : Option (View S)

/-- What is published of a sample. -/
structure SampleUpdate (S : Type) [Sample S] where
  key : Key S
  view : View S

structure SampleSnapshot (S : Type) [Sample S] where
  key : Key S
  latest : Option (View S)
  history : List S

namespace SampleMonitor

def new (key : Key S) (historyCapacity : Nat) : SampleMonitor S :=
  { key, history := [], historyCapacity, latest := none }

/-- Ingest a sample, and say what is to be published of it. -/
def ingest (self : SampleMonitor S) (sample : S) : Option (SampleUpdate S) × SampleMonitor S :=
  if Sample.key sample ≠ self.key then (none, self)
  else
    let history :=
      if self.history.length = self.historyCapacity then self.history.drop 1 else self.history
    (some { key := self.key, view := view sample },
      { self with history := history ++ [sample], latest := some (view sample) })

def snapshot (self : SampleMonitor S) : SampleSnapshot S :=
  { key := self.key, latest := self.latest, history := self.history }

/-- Ingest samples one after the other. -/
def ingestAll (self : SampleMonitor S) : List S → List (Option (SampleUpdate S)) × SampleMonitor S
  | [] => ([], self)
  | sample :: samples =>
      let (update, self) := self.ingest sample
      let (updates, self) := self.ingestAll samples
      (update :: updates, self)

/-! ## What is kept -/

/-- The samples of a key. -/
def matching (key : Key S) (samples : List S) : List S :=
  samples.filter fun s ↦ Sample.key s = key

/-- What is in the history after some samples of the key: the last ones, and all without any
capacity. -/
def kept (historyCapacity : Nat) (seen : List S) : List S :=
  if historyCapacity = 0 then seen else seen.rtake historyCapacity

/-- A monitor that has seen some samples of its key. -/
structure HasSeen (monitor : SampleMonitor S) (key : Key S) (historyCapacity : Nat)
    (seen : List S) : Prop where
  key_eq : monitor.key = key
  capacity_eq : monitor.historyCapacity = historyCapacity
  history_eq : monitor.history = kept historyCapacity seen
  latest_eq : monitor.latest = seen.getLast?.map view

variable {self : SampleMonitor S} {key : Key S} {historyCapacity : Nat} {seen samples : List S}
  {sample : S}

omit [Sample S] in
theorem length_rtake {n : Nat} (l : List S) : (l.rtake n).length = min n l.length := by
  rw [List.rtake, List.length_drop]
  omega

omit [Sample S] in
/-- One sample more. -/
theorem kept_concat :
    kept historyCapacity (seen ++ [sample]) =
      (if (kept historyCapacity seen).length = historyCapacity then
        (kept historyCapacity seen).drop 1 else kept historyCapacity seen) ++ [sample] := by
  cases historyCapacity with
  | zero =>
      rw [kept, if_pos rfl, kept, if_pos rfl]
      cases seen with
      | nil => rfl
      | cons s seen =>
          rw [if_neg]
          exact Nat.succ_ne_zero _
  | succ c =>
      rw [kept, if_neg (Nat.succ_ne_zero c), kept, if_neg (Nat.succ_ne_zero c),
        List.rtake_concat_succ, length_rtake]
      congr 1
      rw [List.rtake, List.rtake, List.drop_drop]
      split
      · congr 1
        omega
      · congr 1
        omega

theorem hasSeen_new : HasSeen (new key historyCapacity) key historyCapacity [] where
  key_eq := rfl
  capacity_eq := rfl
  history_eq := by
    rw [kept]
    split
    · rfl
    · exact (List.rtake_nil _).symm
  latest_eq := rfl

/-- A sample of another key changes nothing. -/
theorem ingest_of_ne (h : Sample.key sample ≠ self.key) : self.ingest sample = (none, self) :=
  if_pos h

/-- A sample of the key is published, and it has been seen. -/
theorem ingest_of_eq (h : HasSeen self key historyCapacity seen)
    (hkey : Sample.key sample = key) :
    (self.ingest sample).1 = some { key, view := view sample } ∧
      HasSeen (self.ingest sample).2 key historyCapacity (seen ++ [sample]) := by
  have hsame : ¬Sample.key sample ≠ self.key := by
    rw [h.key_eq, hkey]
    exact not_not_intro rfl
  rw [ingest, if_neg hsame]
  refine ⟨by rw [h.key_eq], h.key_eq, h.capacity_eq, ?_, ?_⟩
  · rw [kept_concat, ← h.history_eq, ← h.capacity_eq]
  · rw [List.getLast?_concat]
    rfl

theorem ingestAll_cons : self.ingestAll (sample :: samples) =
    ((self.ingest sample).1 :: ((self.ingest sample).2.ingestAll samples).1,
      ((self.ingest sample).2.ingestAll samples).2) := rfl

/-- Any samples, one after the other. -/
theorem ingestAll_of_hasSeen (h : HasSeen self key historyCapacity seen) :
    (self.ingestAll samples).1 = (samples.map fun s ↦
        if Sample.key s = key then some { key, view := view s } else none) ∧
      HasSeen (self.ingestAll samples).2 key historyCapacity (seen ++ matching key samples) := by
  induction samples generalizing self seen with
  | nil =>
      refine ⟨rfl, ?_⟩
      rw [matching, List.filter_nil, List.append_nil]
      exact h
  | cons sample samples ih =>
      rw [ingestAll_cons, List.map_cons, matching]
      by_cases hkey : Sample.key sample = key
      · obtain ⟨hupdate, hnext⟩ := ingest_of_eq h hkey
        obtain ⟨hupdates, hrest⟩ := ih hnext
        rw [if_pos hkey, List.filter_cons_of_pos (by simpa using hkey), List.append_cons]
        exact ⟨congrArg₂ List.cons hupdate hupdates, hrest⟩
      · have hother : self.ingest sample = (none, self) := by
          refine ingest_of_ne ?_
          rw [h.key_eq]
          exact hkey
        obtain ⟨hupdates, hrest⟩ := ih h
        rw [if_neg hkey, List.filter_cons_of_neg (by simpa using hkey), hother]
        exact ⟨congrArg (List.cons none) hupdates, hrest⟩

/-- After some samples a monitor keeps the last of its key, and the view of the newest; each was
published, and a sample of another key would change nothing. -/
structure KeepsLast (key : Key S) (historyCapacity : Nat) (samples : List S) : Prop where
  length_le : ((new key historyCapacity).ingestAll samples).2.snapshot.history.length ≤
    historyCapacity
  history_eq : ((new key historyCapacity).ingestAll samples).2.snapshot.history =
    (matching key samples).drop ((matching key samples).length -
      min (matching key samples).length historyCapacity)
  latest_eq : ((new key historyCapacity).ingestAll samples).2.snapshot.latest =
    (matching key samples).getLast?.map view
  updates_eq : ((new key historyCapacity).ingestAll samples).1 = samples.map fun s ↦
    if Sample.key s = key then some { key, view := view s } else none
  foreign : ∀ sample, Sample.key sample ≠ key →
    ((new key historyCapacity).ingestAll samples).2.ingest sample =
      (none, ((new key historyCapacity).ingestAll samples).2)

/-- A monitor keeps what it should, if and only if there is room for a sample, or none comes. -/
theorem keepsLast_iff (key : Key S) (historyCapacity : Nat) (samples : List S) :
    KeepsLast key historyCapacity samples ↔ 0 < historyCapacity ∨ matching key samples = [] := by
  obtain ⟨hupdates, hseen⟩ : _ ∧ HasSeen ((new key historyCapacity).ingestAll samples).2 key
      historyCapacity ([] ++ matching key samples) := ingestAll_of_hasSeen hasSeen_new
  rw [List.nil_append] at hseen
  constructor
  · intro h
    rcases Nat.eq_zero_or_pos historyCapacity with rfl | hpos
    · -- everything was kept, and there is room for nothing
      have hle : ((new key 0).ingestAll samples).2.history.length ≤ 0 := h.length_le
      rw [hseen.history_eq, kept, if_pos rfl] at hle
      exact Or.inr (List.eq_nil_of_length_eq_zero (Nat.le_zero.mp hle))
    · exact Or.inl hpos
  · intro h
    have hhistory : ((new key historyCapacity).ingestAll samples).2.history =
        (matching key samples).drop ((matching key samples).length -
          min (matching key samples).length historyCapacity) := by
      rw [hseen.history_eq, kept]
      split
      case isTrue hzero =>
        rw [h.resolve_left (Nat.not_lt.mpr hzero.le)]
        rfl
      case isFalse =>
        rw [List.rtake]
        congr 1
        omega
    refine ⟨?_, hhistory, hseen.latest_eq, hupdates, fun sample hne ↦ ingest_of_ne ?_⟩
    · have hlength := congrArg List.length hhistory
      rw [List.length_drop] at hlength
      have hle :
          ((new key historyCapacity).ingestAll samples).2.history.length ≤ historyCapacity := by
        omega
      exact hle
    · rw [hseen.key_eq]
      exact hne

/-- Without any capacity the one sample stays. -/
theorem no_capacity_keeps_one :
    ((new "load" 0).ingestAll [(⟨"load", 1, 0⟩ : NumericSample ℚ)]).2.snapshot.history.length = 1 ∧
      ¬KeepsLast "load" 0 [(⟨"load", 1, 0⟩ : NumericSample ℚ)] := by
  refine ⟨rfl, fun h ↦ ?_⟩
  exact absurd h.length_le (by decide)

end SampleMonitor

end Koalisi.Ingest
