import Mathlib.Algebra.Order.Field.Basic
import Mathlib.Algebra.Order.Ring.Rat
import Mathlib.Data.Prod.Lex
import Mathlib.Data.String.Basic
import Mathlib.Tactic.FieldSimp
import Mathlib.Tactic.Linarith
import Mathlib.Tactic.Ring
import Koalisi.Ingest.Monitor
import Koalisi.Lib.Chronicle
import Koalisi.Lib.Literals
import Koalisi.Lib.Period

/-!
# Synthetic series

A source of numeric series at different resolutions.  Each series is a sine with some jitter, and
draws the jitter from a generator of its own.  The samples of all series are merged in the order
of their timestamps, those of one timestamp by series.

The generator of a series starts from the seed and the position of the series.  So the same series
at another position draws other numbers, and its samples are others, unless it has no amplitude
(`independent_iff`).

The arithmetic of values is that of an ordered field.
-/

namespace Koalisi.Ingest

open Koalisi.Lib
open scoped Koalisi.Lib.Literals
open SplitMix64 (gamma nth next nextU64)

variable {K : Type}

/-! ## Timestamps -/

/-- The numbers that a timestamp can be. -/
def InI64 (z : Int) : Prop := -2 ^ 63 ≤ z ∧ z < 2 ^ 63

instance decidableInI64 (z : Int) : Decidable (InI64 z) := inferInstanceAs (Decidable (_ ∧ _))

/-- A number as a timestamp, if it is one. -/
def checkedI64 (z : Int) : Option Int64 := if InI64 z then some (Int64.ofInt z) else none

/-- One numeric series. -/
structure SeriesSpec (K : Type) where
  key : String
  startMs : Int64
  stepMs : Int64
  count : Nat
  base : K
  amplitude : K
  /-- The samples of a full period. -/
  period : Nat
deriving DecidableEq

namespace SeriesSpec

/-- The timestamp of a sample; a sum or a product that is out of range is a panic. -/
def timestamp (spec : SeriesSpec K) (i : Nat) : Option Int64 := do
  let offset ← checkedI64 ((Int64.ofNat i).toInt * spec.stepMs.toInt)
  checkedI64 (spec.startMs.toInt + offset.toInt)

/-- The timestamp that a sample should have is in range. -/
def InRange (spec : SeriesSpec K) (i : Nat) : Prop :=
  InI64 (spec.startMs.toInt + i * spec.stepMs.toInt)

/-- There is no step, or the product of a number and the step is in range. -/
def Fits (spec : SeriesSpec K) (i : Nat) : Prop :=
  spec.stepMs.toInt = 0 ∨ i < 2 ^ 63 ∧ InI64 (i * spec.stepMs.toInt)

instance decidableInRange (spec : SeriesSpec K) (i : Nat) : Decidable (spec.InRange i) :=
  decidableInI64 _

instance decidableFits (spec : SeriesSpec K) (i : Nat) : Decidable (spec.Fits i) :=
  inferInstanceAs (Decidable (_ ∨ _ ∧ _))

/-- A timestamp comes out if the product and the sum are in range. -/
theorem isSome_timestamp_iff {spec : SeriesSpec K} {i : Nat} :
    (spec.timestamp i).isSome ↔
      InI64 ((Int64.ofNat i).toInt * spec.stepMs.toInt) ∧
        InI64 (spec.startMs.toInt + (Int64.ofNat i).toInt * spec.stepMs.toInt) := by
  rw [timestamp, checkedI64]
  split
  case isTrue hproduct =>
    rw [Option.bind_eq_bind, Option.bind_some, Int64.toInt_ofInt_of_le hproduct.1 hproduct.2,
      checkedI64]
    split
    case isTrue hsum => exact iff_of_true rfl ⟨hproduct, hsum⟩
    case isFalse hsum => exact iff_of_false Bool.false_ne_true fun h ↦ hsum h.2
  case isFalse hproduct => exact iff_of_false Bool.false_ne_true fun h ↦ hproduct h.1

/-- A number from `2 ^ 63` on wraps around, and the sum is beyond the range by as many steps. -/
theorem not_inI64_of_wrap {start step : Int} {i : Nat} (hi : 2 ^ 63 ≤ i) (hstep : step ≠ 0)
    (hrange : InI64 (start + i * step)) : ¬InI64 (start + (Int64.ofNat i).toInt * step) := by
  have hwrap := Int.bmod_add_bdiv (i : Int) (2 ^ 64)
  have hlt := Int64.toInt_lt (Int64.ofNat i)
  have hbmod : (Int64.ofNat i).toInt = (i : Int).bmod (2 ^ 64) := Int64.toInt_ofNat'
  rw [← hbmod] at hwrap
  generalize (Int64.ofNat i).toInt = wrapped at hwrap hlt ⊢
  generalize (i : Int).bdiv (2 ^ 64) = k at hwrap
  have hk : k ≠ 0 := by omega
  have hsteps : k * step ≠ 0 := mul_ne_zero hk hstep
  have hproduct : wrapped * step = i * step - 2 ^ 64 * (k * step) := by
    rw [← hwrap]
    ring
  rw [InI64] at hrange ⊢
  omega

/-- A timestamp in range comes out if the product is in range as well. -/
theorem isSome_timestamp {spec : SeriesSpec K} {i : Nat} (hrange : spec.InRange i) :
    (spec.timestamp i).isSome ↔ spec.Fits i := by
  rw [isSome_timestamp_iff, Fits]
  rw [InRange] at hrange
  by_cases hstep : spec.stepMs.toInt = 0
  · have hstart : InI64 spec.startMs.toInt := ⟨Int64.le_toInt _, Int64.toInt_lt _⟩
    rw [hstep, Int.mul_zero, Int.add_zero]
    exact iff_of_true ⟨by decide, hstart⟩ (Or.inl rfl)
  · by_cases hi : i < 2 ^ 63
    · rw [Int64.toInt_ofNat_of_lt hi]
      tauto
    · have hout := not_inI64_of_wrap (Nat.le_of_not_lt hi) hstep hrange
      tauto

/-! ## Samples -/

variable [Field K] (tau : K) (sin : K → K)

/-- The value of a sample, with a number between zero and one that was drawn for it. -/
def value (spec : SeriesSpec K) (i : Nat) (unit : K) : K :=
  let period := max spec.period 1
  let phase := tau * (i : K) / (period : K)
  let jitter := (unit - 1 / 2) * spec.amplitude * (1 / 20)
  spec.base + spec.amplitude * sin phase + jitter

def emit (spec : SeriesSpec K) (i : Nat) : Draw (NumericSample K) := do
  let timestampMs ← StateT.lift (spec.timestamp i)
  let unit ← SplitMix64.nextUnit K
  return { series := spec.key, value := spec.value tau sin i unit, timestampMs }

def samples (spec : SeriesSpec K) : Draw (List (NumericSample K)) :=
  (List.range spec.count).mapM (spec.emit tau sin)

end SeriesSpec

/-! ## The source -/

/-- Samples are ordered by their timestamps, and then by their series. -/
def stamp (s : NumericSample K) : ℤ ×ₗ String := toLex (s.timestampMs.toInt, s.series)

structure MultiResolutionSource (K : Type) where
  queue : List (NumericSample K)

namespace MultiResolutionSource

variable [Field K] (tau : K) (sin : K → K)

/-- The generator of the series at a position. -/
def substream (seed : UInt64) (si : Nat) : SplitMix64 := ⟨seed ^^^ (UInt64.ofNat si * gamma)⟩

/-- The samples of each series. -/
def allSeries (specs : List (SeriesSpec K)) (seed : UInt64) :
    Option (List (List (NumericSample K))) :=
  specs.zipIdx.mapM fun (spec, si) ↦ (spec.samples tau sin).run' (substream seed si)

def new (specs : List (SeriesSpec K)) (seed : UInt64) : Option (MultiResolutionSource K) := do
  let all ← allSeries tau sin specs seed
  return { queue := chronicle stamp all.flatten }

def remaining (self : MultiResolutionSource K) : Nat := self.queue.length

def nextSample (self : MultiResolutionSource K) :
    Option (NumericSample K) × MultiResolutionSource K := (self.queue.head?, ⟨self.queue.drop 1⟩)

/-- What comes of asking so many times for the next sample. -/
def pull : Nat → MultiResolutionSource K → List (NumericSample K)
  | 0, _ => []
  | n + 1, self =>
      let (sample, self) := self.nextSample
      sample.toList ++ pull n self

/-- All samples, in the order they come. -/
def stream (self : MultiResolutionSource K) : List (NumericSample K) := self.pull self.remaining

omit [Field K] in
theorem stream_eq (self : MultiResolutionSource K) : self.stream = self.queue := by
  obtain ⟨queue⟩ := self
  change pull queue.length ⟨queue⟩ = queue
  induction queue with
  | nil => rfl
  | cons s queue ih => exact congrArg (s :: ·) ih

end MultiResolutionSource

/-! ## What is drawn -/

/-- A loop over items that have a result each, if they have a property. -/
theorem mapM_ite {α β : Type} (P : α → Prop) [DecidablePred P] (f : α → β) (l : List α) :
    (l.mapM fun a ↦ if P a then some (f a) else none) =
      if ∀ a ∈ l, P a then some (l.map f) else none := by
  induction l with
  | nil =>
      rw [if_pos (List.forall_mem_nil _)]
      rfl
  | cons a l ih =>
      rw [List.mapM_cons, ih]
      by_cases ha : P a
      · rw [if_pos ha]
        by_cases hl : ∀ b ∈ l, P b
        · rw [if_pos hl, if_pos (List.forall_mem_cons.mpr ⟨ha, hl⟩)]
          rfl
        · rw [if_neg hl, if_neg fun h ↦ hl (List.forall_mem_cons.mp h).2]
          rfl
      · rw [if_neg ha, if_neg fun h ↦ ha (List.forall_mem_cons.mp h).1]
        rfl

namespace SeriesSpec

variable [Field K] (tau : K) (sin : K → K) (spec : SeriesSpec K) (rng : SplitMix64)

/-- The number between zero and one that a series draws for a sample. -/
def unit (K : Type) [Field K] (rng : SplitMix64) (i : Nat) : K :=
  ((rng.nth i >>> 11).toNat : K) / ((2 ^ 53 : Nat) : K)

def sampleAt (i : Nat) (timestampMs : Int64) : NumericSample K :=
  { series := spec.key, value := spec.value tau sin i (unit K rng i), timestampMs }

/-- The samples of a series whose timestamps come out. -/
def series : List (NumericSample K) :=
  (List.range spec.count).map fun i ↦
    spec.sampleAt tau sin rng i ((spec.timestamp i).getD 0)

/-- The generator after some draws. -/
def skip (rng : SplitMix64) : Nat → SplitMix64
  | 0 => rng
  | i + 1 => (skip rng i).next

theorem nth_skip (i j : Nat) : (skip rng i).nth j = rng.nth (i + j) := by
  induction i generalizing j with
  | zero => rw [skip, Nat.zero_add]
  | succ i ih => rw [skip, SplitMix64.nth_next, ih, Nat.add_right_comm, Nat.add_assoc]

theorem nextUnit_run : (SplitMix64.nextUnit K).run rng = some (unit K rng 0, rng.next) := by
  rw [SplitMix64.nextUnit, StateT.run_bind, SplitMix64.nextU64_run]
  rfl

theorem emit_run (i : Nat) : (spec.emit tau sin i).run (skip rng i) =
    if (spec.timestamp i).isSome then
      some (spec.sampleAt tau sin rng i ((spec.timestamp i).getD 0), skip rng (i + 1))
    else none := by
  rw [emit]
  cases spec.timestamp i with
  | none => rfl
  | some t =>
      have hunit : unit K (skip rng i) 0 = unit K rng i := by
        rw [unit, nth_skip, Nat.add_zero, unit]
      have hstamp : (StateT.lift (some t) : Draw Int64).run (skip rng i) = some (t, skip rng i) :=
        rfl
      rw [StateT.run_bind, hstamp, Option.bind_eq_bind, Option.bind_some, StateT.run_bind,
        nextUnit_run, hunit]
      rfl

theorem mapM_emit_run (first n : Nat) :
    ((List.range' first n).mapM (spec.emit tau sin)).run (skip rng first) =
      if ∀ i ∈ List.range' first n, (spec.timestamp i).isSome then
        some ((List.range' first n).map fun i ↦
          spec.sampleAt tau sin rng i ((spec.timestamp i).getD 0), skip rng (first + n))
      else none := by
  induction n generalizing first with
  | zero =>
      rw [List.range'_zero, if_pos (List.forall_mem_nil _)]
      rfl
  | succ n ih =>
      rw [List.range'_succ, List.mapM_cons, StateT.run_bind, emit_run]
      simp only [List.forall_mem_cons]
      by_cases hfirst : (spec.timestamp first).isSome
      · rw [if_pos hfirst, Option.bind_eq_bind, Option.bind_some, StateT.run_bind, ih]
        by_cases hrest : ∀ i ∈ List.range' (first + 1) n, (spec.timestamp i).isSome
        · rw [if_pos hrest, if_pos ⟨hfirst, hrest⟩, Nat.add_right_comm]
          rfl
        · rw [if_neg hrest, if_neg fun h ↦ hrest h.2]
          rfl
      · rw [if_neg hfirst, if_neg fun h ↦ hfirst h.1]
        rfl

theorem samples_run : (spec.samples tau sin).run' rng =
    if ∀ i ∈ List.range spec.count, (spec.timestamp i).isSome then
      some (spec.series tau sin rng) else none := by
  have hrun := spec.mapM_emit_run tau sin rng 0 spec.count
  rw [← List.range_eq_range'] at hrun
  have hsamples : (spec.samples tau sin).run' rng =
      ((spec.samples tau sin).run (skip rng 0)).map Prod.fst := rfl
  rw [hsamples, samples, hrun]
  split
  · rfl
  · rfl

/-! ## Two positions -/

variable {tau sin spec rng} {rng' : SplitMix64}

theorem series_of_mem_series {s : NumericSample K} (h : s ∈ spec.series tau sin rng) :
    s.series = spec.key := by
  obtain ⟨i, -, rfl⟩ := List.mem_map.mp h
  rfl

/-- The jitter shows the number that was drawn, if there is an amplitude. -/
theorem value_inj [LinearOrder K] [IsStrictOrderedRing K] (hamplitude : spec.amplitude ≠ 0)
    {i : Nat} {u u' : K} (h : spec.value tau sin i u = spec.value tau sin i u') : u = u' := by
  have hjitter := add_left_cancel h
  have htwenty : (1 / 20 : K) ≠ 0 := by norm_num
  exact sub_left_injective (mul_right_cancel₀ hamplitude (mul_right_cancel₀ htwenty hjitter))

theorem value_of_amplitude_eq_zero (hamplitude : spec.amplitude = 0) (i : Nat) (u u' : K) :
    spec.value tau sin i u = spec.value tau sin i u' := by
  simp only [value, hamplitude, mul_zero, zero_mul]

theorem unit_inj [LinearOrder K] [IsStrictOrderedRing K] {i : Nat}
    (h : unit K rng i = unit K rng' i) : rng.nth i >>> 11 = rng'.nth i >>> 11 := by
  have hpos : ((2 ^ 53 : Nat) : K) ≠ 0 := Nat.cast_ne_zero.mpr (by decide)
  exact UInt64.toNat.inj (Nat.cast_injective ((div_left_inj' hpos).mp h))

/-- Two generators give a series the same samples, if and only if there is no amplitude or they
draw the same numbers for all of them. -/
theorem series_eq_iff [LinearOrder K] [IsStrictOrderedRing K] :
    spec.series tau sin rng = spec.series tau sin rng' ↔
      spec.amplitude = 0 ∨ ∀ i < spec.count, rng.nth i >>> 11 = rng'.nth i >>> 11 := by
  rw [series, series, List.map_inj_left]
  constructor
  · intro h
    by_cases hamplitude : spec.amplitude = 0
    · exact Or.inl hamplitude
    · refine Or.inr fun i hi ↦ ?_
      have hvalue : spec.value tau sin i (unit K rng i) = spec.value tau sin i (unit K rng' i) :=
        congrArg (·.value) (h i (List.mem_range.mpr hi))
      have hunit : unit K rng i = unit K rng' i := value_inj hamplitude hvalue
      exact unit_inj hunit
  · rintro h i hi
    rw [sampleAt, sampleAt]
    rcases h with hamplitude | hdraws
    · rw [value_of_amplitude_eq_zero hamplitude]
    · rw [unit, unit, hdraws i (List.mem_range.mp hi)]

end SeriesSpec

namespace MultiResolutionSource

variable [Field K] (tau : K) (sin : K → K) (specs : List (SeriesSpec K)) (seed : UInt64)

/-- All series, each at its position. -/
def seriesAt : List (List (NumericSample K)) :=
  specs.zipIdx.map fun (spec, si) ↦ spec.series tau sin (substream seed si)

/-- All timestamps come out. -/
def AllFit {K : Type} (specs : List (SeriesSpec K)) : Prop :=
  ∀ spec ∈ specs, ∀ i < spec.count, spec.Fits i

instance decidableAllFit {K : Type} (specs : List (SeriesSpec K)) : Decidable (AllFit specs) :=
  inferInstanceAs (Decidable (∀ spec ∈ specs, ∀ i < spec.count, spec.Fits i))

/-- The timestamps that all samples should have are in range. -/
def AllInRange {K : Type} (specs : List (SeriesSpec K)) : Prop :=
  ∀ spec ∈ specs, ∀ i < spec.count, spec.InRange i

instance decidableAllInRange {K : Type} (specs : List (SeriesSpec K)) :
    Decidable (AllInRange specs) :=
  inferInstanceAs (Decidable (∀ spec ∈ specs, ∀ i < spec.count, spec.InRange i))

theorem new_eq (hrange : AllInRange specs) :
    new tau sin specs seed =
      if AllFit specs then some ⟨chronicle stamp (seriesAt tau sin specs seed).flatten⟩
      else none := by
  have hall : allSeries tau sin specs seed =
      if AllFit specs then some (seriesAt tau sin specs seed) else none := by
    rw [allSeries]
    simp only [SeriesSpec.samples_run]
    refine (mapM_ite (fun p : SeriesSpec K × Nat ↦ ∀ i ∈ List.range p.1.count,
      (p.1.timestamp i).isSome) (fun p ↦ p.1.series tau sin (substream seed p.2)) _).trans ?_
    refine if_congr ?_ rfl rfl
    calc (∀ p ∈ specs.zipIdx, ∀ i ∈ List.range p.1.count, (p.1.timestamp i).isSome)
        ↔ ∀ spec ∈ specs.zipIdx.map Prod.fst, ∀ i ∈ List.range spec.count,
            (spec.timestamp i).isSome := by rw [List.forall_mem_map]
      _ ↔ AllFit specs := by
          rw [List.zipIdx_map_fst]
          refine forall₂_congr fun spec hspec ↦ forall_congr' fun i ↦ ?_
          rw [List.mem_range]
          exact forall_congr' fun hi ↦ SeriesSpec.isSome_timestamp (hrange spec hspec i hi)
  rw [new, hall]
  split
  · rfl
  · rfl

/-- The samples of a series, among those of all, are those with its key. -/
theorem filter_flatten_zipIdx (hkeys : (specs.map (·.key)).Nodup) {first i : Nat}
    {spec : SeriesSpec K} (hspec : specs[i]? = some spec) :
    ((specs.zipIdx first).map fun (spec, si) ↦
        spec.series tau sin (substream seed si)).flatten.filter (fun s ↦ s.series = spec.key) =
      spec.series tau sin (substream seed (first + i)) := by
  induction specs generalizing first i with
  | nil => cases hspec
  | cons head specs ih =>
      obtain ⟨hhead, hkeys⟩ : head.key ∉ specs.map (·.key) ∧ (specs.map (·.key)).Nodup :=
        List.nodup_cons.mp hkeys
      rw [List.zipIdx_cons, List.map_cons, List.flatten_cons, List.filter_append]
      cases i with
      | zero =>
          cases hspec
          have hself : (spec.series tau sin (substream seed first)).filter
              (fun s ↦ s.series = spec.key) = spec.series tau sin (substream seed first) :=
            List.filter_eq_self.mpr fun s hs ↦ decide_eq_true (SeriesSpec.series_of_mem_series hs)
          refine (congrArg₂ (· ++ ·) hself (List.filter_eq_nil_iff.mpr ?_)).trans
            (List.append_nil _)
          intro s hs hkey
          obtain ⟨l, hl, hs⟩ := List.mem_flatten.mp hs
          obtain ⟨p, hp, rfl⟩ := List.mem_map.mp hl
          rw [decide_eq_true_iff, SeriesSpec.series_of_mem_series hs] at hkey
          refine hhead ?_
          rw [← hkey]
          exact List.mem_map_of_mem (List.fst_mem_of_mem_zipIdx hp)
      | succ i =>
          rw [List.getElem?_cons_succ] at hspec
          rw [ih hkeys hspec, Nat.add_right_comm, Nat.add_assoc]
          refine (congrArg (· ++ _) (List.filter_eq_nil_iff.mpr ?_)).trans (List.nil_append _)
          intro s hs hkey
          rw [decide_eq_true_iff, SeriesSpec.series_of_mem_series hs] at hkey
          refine hhead ?_
          rw [hkey]
          exact List.mem_map_of_mem (List.mem_of_getElem? hspec)

theorem stamp_sampleAt {spec : SeriesSpec K} {rng : SplitMix64} {i : Nat} {t : Int64} :
    stamp (spec.sampleAt tau sin rng i t) = toLex (t.toInt, spec.key) := rfl

/-- What a stream has of a series. -/
theorem filter_chronicle_seriesAt (hkeys : (specs.map (·.key)).Nodup) {i : Nat}
    {spec : SeriesSpec K} (hspec : specs[i]? = some spec) :
    (chronicle stamp (seriesAt tau sin specs seed).flatten).filter (fun s ↦ s.series = spec.key) =
      chronicle stamp (spec.series tau sin (substream seed i)) := by
  rw [chronicle.filter_chronicle, seriesAt, filter_flatten_zipIdx tau sin specs seed hkeys hspec,
    Nat.zero_add]

/-! ## The merged stream -/

/-- All samples of all series, each once, in the order of their timestamps. -/
structure Merged (stream : List (NumericSample K)) : Prop where
  perm : ∃ all, allSeries tau sin specs seed = some all ∧ stream.Perm all.flatten
  ordered : stream.Pairwise fun s s' ↦ s.timestampMs ≤ s'.timestampMs

/-- Both sources are there and merge their series, and a series that is in both has the same
samples. -/
def Independent (specs specs' : List (SeriesSpec K)) : Prop :=
  ∃ source ∈ new tau sin specs seed, ∃ source' ∈ new tau sin specs' seed,
    Merged tau sin specs seed source.stream ∧ Merged tau sin specs' seed source'.stream ∧
      ∀ spec ∈ specs, spec ∈ specs' →
        (source.stream.filter fun s ↦ s.series = spec.key) =
          source'.stream.filter fun s ↦ s.series = spec.key

/-- A series that is in both lists has no amplitude, or draws the same numbers in both. -/
def DrawsAlike {K : Type} [Field K] (seed : UInt64) (specs specs' : List (SeriesSpec K)) : Prop :=
  ∀ i j spec, specs[i]? = some spec → specs'[j]? = some spec →
    spec.amplitude = 0 ∨ ∀ n < spec.count,
      (substream seed i).nth n >>> 11 = (substream seed j).nth n >>> 11

variable {tau sin specs seed}

theorem merged_of_new {source : MultiResolutionSource K}
    (h : new tau sin specs seed = some source) : Merged tau sin specs seed source.stream := by
  rw [stream_eq]
  obtain ⟨all, hall, h⟩ := Option.bind_eq_some_iff.mp h
  cases h
  refine ⟨⟨all, hall, chronicle.perm stamp _⟩, (chronicle.pairwise stamp _).imp ?_⟩
  intro s s' hle
  rw [Int64.le_iff_toInt_le]
  rcases Prod.Lex.le_iff.mp hle with hlt | heq
  · exact hlt.le
  · exact heq.1.le

/-- Where all timestamps come out, a series has the same samples in both streams if and only if
the two generators give it the same. -/
theorem filter_eq_iff {specs' : List (SeriesSpec K)} (hkeys : (specs.map (·.key)).Nodup)
    (hkeys' : (specs'.map (·.key)).Nodup) {i j : Nat} {spec : SeriesSpec K}
    (hspec : specs[i]? = some spec) (hspec' : specs'[j]? = some spec) :
    ((chronicle stamp (seriesAt tau sin specs seed).flatten).filter fun s ↦ s.series = spec.key) =
        ((chronicle stamp (seriesAt tau sin specs' seed).flatten).filter
          fun s ↦ s.series = spec.key) ↔
      spec.series tau sin (substream seed i) = spec.series tau sin (substream seed j) := by
  rw [filter_chronicle_seriesAt tau sin specs seed hkeys hspec,
    filter_chronicle_seriesAt tau sin specs' seed hkeys' hspec']
  refine ⟨chronicle.eq_of_chronicle_eq ?_, congrArg _⟩
  rw [SeriesSpec.series, SeriesSpec.series, List.map_map, List.map_map]
  refine List.map_congr_left fun n _ ↦ ?_
  rw [Function.comp_apply, Function.comp_apply, stamp_sampleAt, stamp_sampleAt]

/-- Sources are independent only if series draw alike. -/
theorem drawsAlike_of_independent [LinearOrder K] [IsStrictOrderedRing K]
    {specs' : List (SeriesSpec K)} (hkeys : (specs.map (·.key)).Nodup)
    (hkeys' : (specs'.map (·.key)).Nodup) (hrange : AllInRange specs)
    (hrange' : AllInRange specs') (h : Independent tau sin seed specs specs') :
    AllFit specs ∧ AllFit specs' ∧ DrawsAlike seed specs specs' := by
  obtain ⟨source, hsource, source', hsource', -, -, hsame⟩ := h
  rw [Option.mem_def, new_eq tau sin specs seed hrange] at hsource
  rw [Option.mem_def, new_eq tau sin specs' seed hrange'] at hsource'
  split at hsource
  case isFalse => cases hsource
  case isTrue hfit =>
    split at hsource'
    case isFalse => cases hsource'
    case isTrue hfit' =>
      cases hsource
      cases hsource'
      refine ⟨hfit, hfit', fun i j spec hspec hspec' ↦ ?_⟩
      have hboth := hsame spec (List.mem_of_getElem? hspec) (List.mem_of_getElem? hspec')
      rw [stream_eq, stream_eq] at hboth
      exact SeriesSpec.series_eq_iff.mp ((filter_eq_iff hkeys hkeys' hspec hspec').mp hboth)

/-- Where the timestamps of all samples are in range, the series are independent if and only if
the products are in range as well, and each series that is in both lists has no amplitude or draws
the same numbers at both positions. -/
theorem independent_iff [LinearOrder K] [IsStrictOrderedRing K] (tau : K) (sin : K → K)
    (seed : UInt64) (specs specs' : List (SeriesSpec K)) (hkeys : (specs.map (·.key)).Nodup)
    (hkeys' : (specs'.map (·.key)).Nodup) (hrange : AllInRange specs)
    (hrange' : AllInRange specs') :
    Independent tau sin seed specs specs' ↔
      AllFit specs ∧ AllFit specs' ∧ DrawsAlike seed specs specs' := by
  refine ⟨drawsAlike_of_independent hkeys hkeys' hrange hrange', ?_⟩
  rintro ⟨hfit, hfit', hdraws⟩
  have hnew := new_eq tau sin specs seed hrange
  have hnew' := new_eq tau sin specs' seed hrange'
  rw [if_pos hfit] at hnew
  rw [if_pos hfit'] at hnew'
  refine ⟨_, hnew, _, hnew', merged_of_new hnew, merged_of_new hnew', fun spec hmem hmem' ↦ ?_⟩
  obtain ⟨i, hspec⟩ := List.mem_iff_getElem?.mp hmem
  obtain ⟨j, hspec'⟩ := List.mem_iff_getElem?.mp hmem'
  rw [stream_eq, stream_eq]
  exact (filter_eq_iff hkeys hkeys' hspec hspec').mpr
    (SeriesSpec.series_eq_iff.mpr (hdraws i j spec hspec hspec'))

/-- Series that come after all others disturb none of them. -/
theorem drawsAlike_append {more : List (SeriesSpec K)}
    (hkeys : ((specs ++ more).map (·.key)).Nodup) : DrawsAlike seed specs (specs ++ more) := by
  intro i j spec hspec hspec'
  obtain ⟨hi, -⟩ := List.getElem?_eq_some_iff.mp hspec
  have hsame : ((specs ++ more).map (·.key))[i]? = ((specs ++ more).map (·.key))[j]? := by
    rw [List.getElem?_map, List.getElem?_map, List.getElem?_append_left hi, hspec, hspec']
  have hlt : i < ((specs ++ more).map (·.key)).length := by
    rw [List.length_map, List.length_append]
    exact Nat.lt_add_right _ hi
  obtain rfl := (List.getElem?_inj hlt hkeys).mp hsame
  exact Or.inr fun _ _ ↦ rfl

/-! ### One series, and another one after it or before it -/

section Example

/-- Two samples a second apart; the amplitude is one. -/
def unitSeries (key : String) : SeriesSpec ℚ where
  key
  startMs := 0
  stepMs := 1000
  count := 2
  base := 10
  amplitude := 1
  period := 4

theorem appended_series_independent :
    Independent (6 : ℚ) id 0 [unitSeries "load"] [unitSeries "load", unitSeries "wind"] :=
  (independent_iff 6 id 0 [unitSeries "load"] [unitSeries "load", unitSeries "wind"]
    (by decide) (by decide) (by decide +kernel) (by decide +kernel)).mpr
      ⟨by decide +kernel, by decide +kernel, drawsAlike_append (by decide)⟩

/-- The other series comes first, and the one at the second position draws other numbers. -/
theorem inserted_series_disturbs :
    AllInRange [unitSeries "load"] ∧ AllInRange [unitSeries "wind", unitSeries "load"] ∧
      ¬Independent (6 : ℚ) id 0 [unitSeries "load"] [unitSeries "wind", unitSeries "load"] := by
  have hrange : AllInRange [unitSeries "load"] := by decide +kernel
  have hrange' : AllInRange [unitSeries "wind", unitSeries "load"] := by decide +kernel
  refine ⟨hrange, hrange', fun h ↦ ?_⟩
  obtain ⟨-, -, hdraws⟩ :=
    drawsAlike_of_independent (by decide) (by decide) hrange hrange' h
  rcases hdraws 0 1 (unitSeries "load") rfl rfl with hamplitude | hsame
  · exact absurd hamplitude (by decide +kernel)
  · exact absurd (hsame 0 (by decide)) (by decide +kernel)

end Example

end MultiResolutionSource

end Koalisi.Ingest
