import Mathlib.Data.Finset.Card
import Koalisi.Lib.Sampling
import Koalisi.Topology.History

/-!
# Time series of counts

A count series samples a log at regular instants of a window: it walks along the log once,
keeps the set of the objects that are alive, and writes down its size at every instant.

The instants go up by the resolution, and the last one is cut to the end of the window, so
the series comes to an end unless the resolution is zero: then the instant stays where it is,
and a window that is not over at its start is never left (`count_series_terminate_iff`).
With a positive resolution a series is what it should be, `Samples`, at every sorted log
(`count_series_correct`).  What is alive is said object by object, `vertexLives` and
`hyperedgeLives`; on a history it is what the graph contains (`History.vertexLives_eq`).
-/

namespace Koalisi.Topology

open Koalisi.Lib

variable {V HE : Type}

/-! ## The code -/

/-- Resolve a time range against the event log: an unbounded start is the epoch, an
unbounded end the last event's timestamp. -/
def resolveWindow (events : EventLog V HE) (range : TimeRange) : Timestamp × Timestamp :=
  let start := range.start.getD Timestamp.epoch
  let stop := range.stop.getD ((events.events.getLast?.map TemporalEvent.timestamp).getD start)
  (start, stop)

/-- The instant after `current`, unless the window ends there or no timestamp is left. -/
def nextSample (stop : Timestamp) (resolution : U64) (current : Timestamp) : Option Timestamp :=
  if stop ≤ current then none
  else if Timestamp.max.val - resolution.val < current.val then none
  else
    let next := current + resolution
    some (if stop < next then stop else next)

/-- The sampling loop.  Both series are this loop; only what an event does to the set of the
living differs. -/
def countSeries (step : Finset Nat → TemporalEvent V HE → Finset Nat) (stop : Timestamp)
    (resolution : U64) :
    Nat → Timestamp → Finset Nat → List (TemporalEvent V HE) → Option (List (Timestamp × Nat))
  | 0, _, _, _ => none
  | fuel + 1, current, live, rest =>
      let (live, rest) := drain TemporalEvent.timestamp step current live rest
      match nextSample stop resolution current with
      | none => some [(current, live.card)]
      | some next =>
          (countSeries step stop resolution fuel next live rest).map ((current, live.card) :: ·)

/-- What an event does to the set of living vertices. -/
def vertexLiveStep (live : Finset VertexIndex) : TemporalEvent V HE → Finset VertexIndex
  | .vertexAdded _ index _ => insert index live
  | .vertexRemoved _ index _ => live.erase index
  | .graphCleared .. => ∅
  | _ => live

/-- What an event does to the set of living hyperedges. -/
def hyperedgeLiveStep (live : Finset HyperedgeIndex) : TemporalEvent V HE → Finset HyperedgeIndex
  | .hyperedgeAdded _ index _ _ => insert index live
  | .hyperedgeRemoved _ index _ _ => live.erase index
  | .hyperedgesJoined _ targetIndex sourceIndices _ =>
      sourceIndices.foldl Finset.erase (insert targetIndex live)
  | .hyperedgesCleared .. | .graphCleared .. => ∅
  | _ => live

/-- A time series of vertex counts, in so many rounds of the loop. -/
def vertexCountSeries (fuel : Nat) (events : EventLog V HE) (range : TimeRange)
    (resolution : U64) : Option (List (Timestamp × Nat)) :=
  let (start, stop) := resolveWindow events range
  countSeries vertexLiveStep stop resolution fuel start ∅ events.events

/-- A time series of hyperedge counts. -/
def hyperedgeCountSeries (fuel : Nat) (events : EventLog V HE) (range : TimeRange)
    (resolution : U64) : Option (List (Timestamp × Nat)) :=
  let (start, stop) := resolveWindow events range
  countSeries hyperedgeLiveStep stop resolution fuel start ∅ events.events

/-! ## The instants -/

section Instants

variable {stop current next : Timestamp} {resolution : U64}

theorem nextSample_eq_none :
    nextSample stop resolution current = none ↔
      stop ≤ current ∨ Timestamp.max.val < current.val + resolution.val := by
  have hres : resolution.val ≤ Timestamp.max.val := Timestamp.le_max resolution
  unfold nextSample
  split
  · rename_i hstop
    exact iff_of_true rfl (Or.inl hstop)
  · rename_i hstop
    split
    · rename_i hmax
      exact iff_of_true rfl (Or.inr (by omega))
    · rename_i hmax
      refine iff_of_false (Option.some_ne_none _) fun h ↦ ?_
      exact h.elim hstop fun h ↦ hmax (by omega)

/-- The next instant is one resolution later, or at the end of the window. -/
theorem nextSample_eq_some (h : nextSample stop resolution current = some next) :
    current < stop ∧ next.val = min stop.val (current.val + resolution.val) := by
  have hres : resolution.val ≤ Timestamp.max.val := Timestamp.le_max resolution
  unfold nextSample at h
  split at h
  · cases h
  · rename_i hstop
    split at h
    · cases h
    · rename_i hmax
      have hlt : current.val + resolution.val < 2 ^ 64 := by
        have hval : Timestamp.max.val = 2 ^ 64 - 1 := rfl
        omega
      have hadd : (current + resolution).val = current.val + resolution.val := by
        rw [Fin.val_add]
        exact Nat.mod_eq_of_lt hlt
      refine ⟨not_le.mp hstop, ?_⟩
      rw [Option.some_inj] at h
      subst h
      split
      · rename_i hcut
        rw [Fin.lt_def, hadd] at hcut
        exact (Nat.min_eq_left hcut.le).symm
      · rename_i hcut
        rw [Fin.lt_def, hadd, not_lt] at hcut
        rw [hadd]
        exact (Nat.min_eq_right hcut).symm

theorem nextSample_le_stop (h : nextSample stop resolution current = some next) : next ≤ stop := by
  rw [Fin.le_def, (nextSample_eq_some h).2]
  exact Nat.min_le_left _ _

/-- With a positive resolution the instants go up. -/
theorem lt_nextSample (hres : resolution ≠ 0) (h : nextSample stop resolution current = some next) :
    current < next := by
  obtain ⟨hlt, hnext⟩ := nextSample_eq_some h
  have hpos : 0 < resolution.val := Nat.pos_of_ne_zero fun h0 ↦ hres (Fin.ext h0)
  rw [Fin.lt_def] at hlt ⊢
  omega

/-- With resolution zero the loop stays where it is. -/
theorem nextSample_zero (h : current < stop) : nextSample stop 0 current = some current := by
  cases hnext : nextSample stop 0 current with
  | none =>
      have hle := Timestamp.le_max current
      rcases nextSample_eq_none.mp hnext with hstop | hmax
      · exact absurd h (not_lt.mpr hstop)
      · exact absurd hle (not_le.mpr (Fin.lt_def.mpr hmax))
  | some next =>
      have hval := (nextSample_eq_some hnext).2
      rw [Fin.lt_def] at h
      refine congrArg some (Fin.ext ?_)
      rw [hval]
      exact Nat.min_eq_right h.le

end Instants

/-! ## The loop comes to an end -/

section Loop

variable {step : Finset Nat → TemporalEvent V HE → Finset Nat} {stop : Timestamp}
  {resolution : U64}

theorem countSeries_succ (fuel : Nat) (current : Timestamp) (live : Finset Nat)
    (rest : List (TemporalEvent V HE)) :
    countSeries step stop resolution (fuel + 1) current live rest =
      (nextSample stop resolution current).elim
        (some [(current, (drain TemporalEvent.timestamp step current live rest).1.card)])
        fun next ↦
          (countSeries step stop resolution fuel next
            (drain TemporalEvent.timestamp step current live rest).1
            (drain TemporalEvent.timestamp step current live rest).2).map
          ((current, (drain TemporalEvent.timestamp step current live rest).1.card) :: ·) := by
  rw [countSeries]
  cases nextSample stop resolution current <;> rfl

/-- Every round brings the instant closer to the end of the window. -/
theorem exists_countSeries (hres : resolution ≠ 0) {fuel : Nat} {current : Timestamp}
    (hfuel : stop.val - current.val < fuel) (live : Finset Nat)
    (rest : List (TemporalEvent V HE)) :
    ∃ series, countSeries step stop resolution fuel current live rest = some series := by
  induction fuel generalizing current live rest with
  | zero => exact absurd hfuel (Nat.not_lt_zero _)
  | succ fuel ih =>
      rw [countSeries_succ]
      cases hnext : nextSample stop resolution current with
      | none => exact ⟨_, rfl⟩
      | some next =>
          have hup := lt_nextSample hres hnext
          have hstop := nextSample_le_stop hnext
          rw [Fin.lt_def] at hup
          rw [Fin.le_def] at hstop
          have hcloser : stop.val - next.val < fuel := by omega
          obtain ⟨later, hlater⟩ := ih hcloser
            (drain TemporalEvent.timestamp step current live rest).1
            (drain TemporalEvent.timestamp step current live rest).2
          exact ⟨_, congrArg (Option.map _) hlater⟩

/-- With resolution zero no number of rounds leaves the window. -/
theorem countSeries_zero {current : Timestamp} (h : current < stop) (fuel : Nat)
    (live : Finset Nat) (rest : List (TemporalEvent V HE)) :
    countSeries step stop 0 fuel current live rest = none := by
  induction fuel generalizing live rest with
  | zero => rfl
  | succ fuel ih =>
      rw [countSeries_succ, nextSample_zero h, Option.elim_some, ih, Option.map_none]

theorem exists_countSeries_iff {start : Timestamp} (rest : List (TemporalEvent V HE)) :
    (∃ fuel series, countSeries step stop resolution fuel start ∅ rest = some series) ↔
      resolution ≠ 0 ∨ stop ≤ start := by
  constructor
  · rintro ⟨fuel, series, h⟩
    by_contra hno
    rw [not_or, not_not, not_le] at hno
    obtain ⟨rfl, hlt⟩ := hno
    rw [countSeries_zero hlt] at h
    exact absurd h.symm (Option.some_ne_none series)
  · rintro (hres | hle)
    · exact ⟨_, exists_countSeries hres (Nat.lt_succ_self _) ∅ rest⟩
    · refine ⟨1, [(start, (drain TemporalEvent.timestamp step start ∅ rest).1.card)], ?_⟩
      rw [countSeries_succ, nextSample_eq_none.mpr (Or.inl hle)]
      rfl

end Loop

/-- The count series come to an end, unless the resolution is zero and the window is not
over at its start. -/
theorem count_series_terminate_iff (events : EventLog V HE) (range : TimeRange)
    (resolution : U64) :
    ((∃ fuel series, vertexCountSeries fuel events range resolution = some series) ∧
      ∃ fuel series, hyperedgeCountSeries fuel events range resolution = some series) ↔
      resolution ≠ 0 ∨ (resolveWindow events range).2 ≤ (resolveWindow events range).1 := by
  unfold vertexCountSeries hyperedgeCountSeries
  rw [exists_countSeries_iff, exists_countSeries_iff, and_self]

/-- Resolution zero on a window of two instants. -/
theorem count_series_never_terminate :
    ¬∃ fuel series, vertexCountSeries fuel (EventLog.new : EventLog Nat Nat)
      (TimeRange.between 0 1) 0 = some series := by
  rintro ⟨fuel, series, h⟩
  exact absurd (h.symm.trans (countSeries_zero (by decide) fuel ∅ []))
    (Option.some_ne_none series)

/-! ## What a series should be -/

/-- A series of samples over a window. -/
structure Samples (counts : Timestamp → Nat → Prop) (start stop : Timestamp) (resolution : U64)
    (series : List (Timestamp × Nat)) : Prop where
  /-- It begins at the start of the window. -/
  starts : (series.map Prod.fst).head? = some start
  /-- It goes up in steps of at most the resolution. -/
  climbs : (series.map Prod.fst).IsChain fun t t' ↦ t < t' ∧ t'.val ≤ t.val + resolution.val
  /-- It ends at the end of the window, unless the next step would exceed the largest
  timestamp. -/
  ends : ∃ t, (series.map Prod.fst).getLast? = some t ∧
    (t = stop ∨ Timestamp.max.val < t.val + resolution.val)
  /-- It does not leave the window. -/
  within : ∀ t ∈ series.map Prod.fst, t ≤ stop
  /-- Each sample counts. -/
  counts : ∀ p ∈ series, counts p.1 p.2

/-- One more sample in front. -/
theorem Samples.cons {counts : Timestamp → Nat → Prop} {start next stop : Timestamp}
    {resolution : U64} {n : Nat} {later : List (Timestamp × Nat)}
    (h : Samples counts next stop resolution later) (hup : start < next)
    (hstep : next.val ≤ start.val + resolution.val) (hn : counts start n) :
    Samples counts start stop resolution ((start, n) :: later) := by
  obtain ⟨p, later, rfl⟩ : ∃ p rest, later = p :: rest := by
    cases later with
    | nil => exact absurd h.starts.symm (Option.some_ne_none next)
    | cons p rest => exact ⟨p, rest, rfl⟩
  have hp : p.1 = next := Option.some_inj.mp h.starts
  refine ⟨rfl, ?_, ?_, ?_, List.forall_mem_cons.mpr ⟨hn, h.counts⟩⟩
  · refine List.isChain_cons_cons.mpr ⟨?_, h.climbs⟩
    rw [hp]
    exact ⟨hup, hstep⟩
  · obtain ⟨t, ht, hend⟩ := h.ends
    exact ⟨t, List.getLast?_cons_cons.trans ht, hend⟩
  · refine List.forall_mem_cons.mpr ⟨?_, h.within⟩
    exact hup.le.trans (hp ▸ h.within p.1 List.mem_cons_self)

section Correct

variable {step : Finset Nat → TemporalEvent V HE → Finset Nat} {stop : Timestamp}
  {resolution : U64} {log : List (TemporalEvent V HE)}

/-- The walk is where a walk of the whole log would be, at every instant from `current` on. -/
def OnTrack (step : Finset Nat → TemporalEvent V HE → Finset Nat)
    (log : List (TemporalEvent V HE)) (current : Timestamp) (live : Finset Nat)
    (rest : List (TemporalEvent V HE)) : Prop :=
  ∀ t, current ≤ t → drain TemporalEvent.timestamp step t live rest =
    drain TemporalEvent.timestamp step t ∅ log

/-- It stays so behind a sample. -/
theorem OnTrack.drain (hsorted : log.Pairwise fun a b ↦ a.timestamp ≤ b.timestamp)
    {current next : Timestamp} {live : Finset Nat} {rest : List (TemporalEvent V HE)}
    (h : OnTrack step log current live rest) (hup : current ≤ next) :
    OnTrack step log next (drain TemporalEvent.timestamp step current live rest).1
      (drain TemporalEvent.timestamp step current live rest).2 := by
  intro t ht
  rw [h current le_rfl]
  exact drain_drain hsorted (hup.trans ht) ∅

/-- The size of the set that the events up to an instant leave. -/
def sizeAt (step : Finset Nat → TemporalEvent V HE → Finset Nat)
    (log : List (TemporalEvent V HE)) (t : Timestamp) : Nat :=
  ((log.filter fun e ↦ e.timestamp ≤ t).foldl step ∅).card

theorem OnTrack.card_drain (hsorted : log.Pairwise fun a b ↦ a.timestamp ≤ b.timestamp)
    {current : Timestamp} {live : Finset Nat} {rest : List (TemporalEvent V HE)}
    (h : OnTrack step log current live rest) :
    (Lib.drain TemporalEvent.timestamp step current live rest).1.card =
      sizeAt step log current := by
  rw [h current le_rfl, drain_eq_filter hsorted]
  rfl

/-- A loop that is on track and comes to an end has made a series. -/
theorem samples_of_countSeries (hsorted : log.Pairwise fun a b ↦ a.timestamp ≤ b.timestamp)
    (hres : resolution ≠ 0) {fuel : Nat} {current : Timestamp} {live : Finset Nat}
    {rest : List (TemporalEvent V HE)} {series : List (Timestamp × Nat)}
    (htrack : OnTrack step log current live rest) (hle : current ≤ stop)
    (h : countSeries step stop resolution fuel current live rest = some series) :
    Samples (fun t n ↦ n = sizeAt step log t) current stop resolution series := by
  induction fuel generalizing current live rest series with
  | zero => exact absurd h.symm (Option.some_ne_none series)
  | succ fuel ih =>
      rw [countSeries_succ] at h
      have hsize := htrack.card_drain hsorted
      cases hnext : nextSample stop resolution current with
      | none =>
          rw [hnext, Option.elim_none, Option.some_inj] at h
          subst h
          refine ⟨rfl, .singleton _, ⟨current, rfl, ?_⟩, List.forall_mem_singleton.mpr hle,
            List.forall_mem_singleton.mpr hsize⟩
          exact (nextSample_eq_none.mp hnext).imp (le_antisymm hle) id
      | some next =>
          rw [hnext, Option.elim_some] at h
          obtain ⟨later, hlater, rfl⟩ := Option.map_eq_some_iff.mp h
          have hup := lt_nextSample hres hnext
          have hsamples := ih (htrack.drain hsorted hup.le) (nextSample_le_stop hnext) hlater
          refine hsamples.cons hup ?_ hsize
          rw [(nextSample_eq_some hnext).2]
          exact Nat.min_le_right _ _

/-- With a positive resolution the loop makes a series of a sorted log. -/
theorem exists_samples (hsorted : log.Pairwise fun a b ↦ a.timestamp ≤ b.timestamp)
    (hres : resolution ≠ 0) {start : Timestamp} (hle : start ≤ stop) :
    ∃ fuel series, countSeries step stop resolution fuel start ∅ log = some series ∧
      Samples (fun t n ↦ n = sizeAt step log t) start stop resolution series := by
  obtain ⟨fuel, series, h⟩ := (exists_countSeries_iff log).mpr (Or.inl hres)
  exact ⟨fuel, series, h, samples_of_countSeries hsorted hres (fun _ _ ↦ rfl) hle h⟩

end Correct

/-! ## What is alive -/

/-- Whether a vertex is alive, across one event. -/
def vertexLivesStep (vertex : VertexIndex) (lives : Bool) : TemporalEvent V HE → Bool
  | .vertexAdded _ index _ => if index = vertex then true else lives
  | .vertexRemoved _ index _ => if index = vertex then false else lives
  | .graphCleared .. => false
  | _ => lives

/-- Whether a hyperedge is alive, across one event.  The sources of a join die. -/
def hyperedgeLivesStep (hyperedge : HyperedgeIndex) (lives : Bool) : TemporalEvent V HE → Bool
  | .hyperedgeAdded _ index _ _ => if index = hyperedge then true else lives
  | .hyperedgeRemoved _ index _ _ => if index = hyperedge then false else lives
  | .hyperedgesJoined _ targetIndex sourceIndices _ =>
      if hyperedge ∈ sourceIndices then false
      else if targetIndex = hyperedge then true else lives
  | .hyperedgesCleared .. | .graphCleared .. => false
  | _ => lives

/-- Whether a list of events leaves a vertex alive, clears included. -/
def vertexLives (es : List (TemporalEvent V HE)) (vertex : VertexIndex) : Bool :=
  es.foldl (vertexLivesStep vertex) false

/-- Whether a list of events leaves a hyperedge alive, clears included. -/
def hyperedgeLives (es : List (TemporalEvent V HE)) (hyperedge : HyperedgeIndex) : Bool :=
  es.foldl (hyperedgeLivesStep hyperedge) false

theorem mem_vertexLiveStep (live : Finset VertexIndex) (e : TemporalEvent V HE)
    (v : VertexIndex) :
    v ∈ vertexLiveStep live e ↔ vertexLivesStep v (decide (v ∈ live)) e = true := by
  cases e with
  | vertexAdded _ index _ =>
      rw [vertexLiveStep, vertexLivesStep, Finset.mem_insert]
      rcases eq_or_ne index v with rfl | h
      · simp
      · simp [h, h.symm]
  | vertexRemoved _ index _ =>
      rw [vertexLiveStep, vertexLivesStep, Finset.mem_erase]
      rcases eq_or_ne index v with rfl | h
      · simp
      · simp [h, h.symm]
  | graphCleared => simp [vertexLiveStep, vertexLivesStep]
  | _ => exact (decide_eq_true_iff).symm

theorem mem_foldl_erase (sources : List Nat) (live : Finset Nat) (x : Nat) :
    x ∈ sources.foldl Finset.erase live ↔ x ∈ live ∧ x ∉ sources := by
  induction sources generalizing live with
  | nil => simp
  | cons s sources ih =>
      rw [List.foldl_cons, ih, Finset.mem_erase, List.mem_cons, not_or]
      constructor
      · rintro ⟨⟨hs, hx⟩, hrest⟩
        exact ⟨hx, hs, hrest⟩
      · rintro ⟨hx, hs, hrest⟩
        exact ⟨⟨hs, hx⟩, hrest⟩

theorem mem_hyperedgeLiveStep (live : Finset HyperedgeIndex) (e : TemporalEvent V HE)
    (h : HyperedgeIndex) :
    h ∈ hyperedgeLiveStep live e ↔ hyperedgeLivesStep h (decide (h ∈ live)) e = true := by
  cases e with
  | hyperedgeAdded _ index _ _ =>
      rw [hyperedgeLiveStep, hyperedgeLivesStep, Finset.mem_insert]
      rcases eq_or_ne index h with rfl | hne
      · simp
      · simp [hne, hne.symm]
  | hyperedgeRemoved _ index _ _ =>
      rw [hyperedgeLiveStep, hyperedgeLivesStep, Finset.mem_erase]
      rcases eq_or_ne index h with rfl | hne
      · simp
      · simp [hne, hne.symm]
  | hyperedgesJoined _ target sources _ =>
      rw [hyperedgeLiveStep, hyperedgeLivesStep, mem_foldl_erase, Finset.mem_insert]
      by_cases hs : h ∈ sources
      · simp [hs]
      · rcases eq_or_ne target h with rfl | hne
        · simp [hs]
        · simp [hs, hne, hne.symm]
  | hyperedgesCleared | graphCleared => simp [hyperedgeLiveStep, hyperedgeLivesStep]
  | _ => exact (decide_eq_true_iff).symm

/-- The set that the events leave has the objects that they leave alive. -/
theorem mem_foldl_iff_lives {step : Finset Nat → TemporalEvent V HE → Finset Nat}
    {lives : Nat → Bool → TemporalEvent V HE → Bool}
    (hstep : ∀ live e x, x ∈ step live e ↔ lives x (decide (x ∈ live)) e = true)
    (es : List (TemporalEvent V HE)) (x : Nat) :
    x ∈ es.foldl step ∅ ↔ es.foldl (lives x) false = true := by
  induction es using List.reverseRecOn with
  | nil => simp
  | append_singleton es e ih =>
      have hbefore : decide (x ∈ es.foldl step ∅) = es.foldl (lives x) false := by
        rw [Bool.eq_iff_iff, decide_eq_true_iff, ih]
      rw [List.foldl_concat, List.foldl_concat, hstep, hbefore]

/-- Across an event that mentions it a hyperedge fares as the queries take it to. -/
theorem hyperedgeLivesStep_of_mentioned {s : GraphState V HE} {e : TemporalEvent V HE}
    (hl : e.Legal s) {x : HyperedgeIndex} (hk : x ∈ e.hyperedgeKeys) :
    hyperedgeLivesStep x (s.hyperedges x).isSome e =
      hyperedgeExistsStep x (s.hyperedges x).isSome e := by
  cases e with
  | hyperedgeAdded _ index | hyperedgeRemoved _ index =>
      cases List.mem_singleton.mp hk
      exact if_pos rfl
  | hyperedgesJoined _ target sources _ =>
      obtain ⟨p, hs⟩ := hl
      rw [hyperedgeLivesStep, hyperedgeExistsStep]
      rcases eq_or_ne target x with rfl | hne
      · rw [if_pos rfl, hs]
        rfl
      · rw [if_neg hne]
  | hyperedgesCleared | graphCleared => cases hk
  | _ => rfl

/-- An event that does not mention it leaves it as it is, unless it is a clear. -/
theorem hyperedgeLivesStep_of_unmentioned {e : TemporalEvent V HE} (hc : e.clears = none)
    {x : HyperedgeIndex} (hk : x ∉ e.hyperedgeKeys) (lives : Bool) :
    hyperedgeLivesStep x lives e = lives := by
  cases e with
  | hyperedgeAdded _ index | hyperedgeRemoved _ index =>
      exact if_neg fun h : index = x ↦ hk (h ▸ List.mem_cons_self)
  | hyperedgesJoined _ target sources _ =>
      have hs : x ∉ sources := fun h ↦ hk (List.mem_cons_of_mem _ h)
      have ht : target ≠ x := fun h ↦ hk (h ▸ List.mem_cons_self)
      rw [hyperedgeLivesStep, if_neg hs, if_neg ht]
  | hyperedgesCleared | graphCleared => exact absurd hc (Option.some_ne_none _)
  | _ => rfl

/-- An event does to the living what it does to the contents of the graph. -/
theorem hyperedgeLivesStep_effect {s : GraphState V HE} {e : TemporalEvent V HE}
    (hl : e.Legal s) (hj : e.JoinsApart) (x : HyperedgeIndex) :
    hyperedgeLivesStep x (s.hyperedges x).isSome e = ((e.effect s).hyperedges x).isSome := by
  by_cases hc : e.clears = none
  · by_cases hk : x ∈ e.hyperedgeKeys
    · rw [hyperedgeLivesStep_of_mentioned hl hk]
      exact (hyperedgeStep_effect hl hj hk).1
    · have hnothing : e.ClearsNothing s := by
        rw [TemporalEvent.ClearsNothing, hc]
        trivial
      rw [hyperedgeLivesStep_of_unmentioned hc hk, effect_hyperedges_of_unmentioned hnothing hk]
  · cases e with
    | hyperedgesCleared | graphCleared => rfl
    | _ => exact absurd rfl hc

theorem vertexLivesStep_effect {s : GraphState V HE} {e : TemporalEvent V HE}
    (hl : e.Legal s) (v : VertexIndex) :
    vertexLivesStep v (s.vertices v).isSome e = ((e.effect s).vertices v).isSome := by
  cases e with
  | vertexAdded _ index _ | vertexRemoved _ index _ =>
      rcases eq_or_ne v index with rfl | hne
      · simp [vertexLivesStep, TemporalEvent.effect, GraphState.setVertex, GraphState.dropVertex]
      · simp [vertexLivesStep, TemporalEvent.effect, GraphState.setVertex, GraphState.dropVertex,
          hne, hne.symm]
  | vertexWeightUpdated _ index old new =>
      have hs : s.vertices index = some old := hl
      rcases eq_or_ne v index with rfl | hne
      · simp [vertexLivesStep, TemporalEvent.effect, GraphState.setVertex, hs]
      · simp [vertexLivesStep, TemporalEvent.effect, GraphState.setVertex, hne]
  | _ => rfl

/-- A vertex is alive after a history when the graph contains it. -/
theorem History.vertexLives_eq {es : List (TemporalEvent V HE)} {s : GraphState V HE}
    (h : History es s) (v : VertexIndex) : vertexLives es v = (s.vertices v).isSome := by
  induction h with
  | nil => rfl
  | snoc _ hl ih =>
      rw [← vertexLivesStep_effect hl, ← ih]
      exact List.foldl_concat _ _ _ _

/-- So is a hyperedge, if the joins of the history name their targets once. -/
theorem History.hyperedgeLives_eq {es : List (TemporalEvent V HE)} {s : GraphState V HE}
    (h : History es s) (hj : ∀ e ∈ es, e.JoinsApart) (x : HyperedgeIndex) :
    hyperedgeLives es x = (s.hyperedges x).isSome := by
  induction h with
  | nil => rfl
  | @snoc es s e _ hl ih =>
      have hapart : e.JoinsApart := hj e (List.mem_append_right _ List.mem_cons_self)
      rw [← hyperedgeLivesStep_effect hl hapart,
        ← ih fun e' he' ↦ hj e' (List.mem_append_left _ he')]
      exact List.foldl_concat _ _ _ _

/-- With a positive resolution, on a sorted log and a window whose end is not before its start,
each series comes to an end and is a series of samples; every sample is the number of vertices,
or of hyperedges, that the events up to its instant leave alive. -/
theorem count_series_correct (events : EventLog V HE)
    (hsorted : events.events.Pairwise fun a b ↦ a.timestamp ≤ b.timestamp)
    {start stop : Timestamp} (hle : start ≤ stop) {resolution : U64} (hres : resolution ≠ 0) :
    (∃ fuel series,
      vertexCountSeries fuel events (TimeRange.between start stop) resolution = some series ∧
      Samples (fun t n ↦ ∃ alive : Finset VertexIndex,
        (∀ v, v ∈ alive ↔
          vertexLives (events.events.filter fun e ↦ e.timestamp ≤ t) v = true) ∧
        n = alive.card) start stop resolution series) ∧
    ∃ fuel series,
      hyperedgeCountSeries fuel events (TimeRange.between start stop) resolution = some series ∧
      Samples (fun t n ↦ ∃ alive : Finset HyperedgeIndex,
        (∀ h, h ∈ alive ↔
          hyperedgeLives (events.events.filter fun e ↦ e.timestamp ≤ t) h = true) ∧
        n = alive.card) start stop resolution series := by
  constructor
  · obtain ⟨fuel, series, hrun, hsamples⟩ := exists_samples hsorted hres hle
    exact ⟨fuel, series, hrun, { hsamples with counts := fun p hp ↦
      ⟨_, mem_foldl_iff_lives mem_vertexLiveStep _, hsamples.counts p hp⟩ }⟩
  · obtain ⟨fuel, series, hrun, hsamples⟩ := exists_samples hsorted hres hle
    exact ⟨fuel, series, hrun, { hsamples with counts := fun p hp ↦
      ⟨_, mem_foldl_iff_lives mem_hyperedgeLiveStep _, hsamples.counts p hp⟩ }⟩

/-- Two vertices come and one of them goes again. -/
def Sample.comings : EventLog Nat Nat :=
  .ofEvents [.vertexAdded 0 0 5, .vertexAdded 1 1 7, .vertexRemoved 2 0 5]

/-- They are counted at 0, 2 and 3. -/
theorem count_series_correct_comings :
    ∃ fuel series,
      vertexCountSeries fuel Sample.comings (TimeRange.between 0 3) 2 = some series ∧
      Samples (fun t n ↦ ∃ alive : Finset VertexIndex,
        (∀ v, v ∈ alive ↔
          vertexLives (Sample.comings.events.filter fun e ↦ e.timestamp ≤ t) v = true) ∧
        n = alive.card) 0 3 2 series := by
  have hsorted : Sample.comings.events.Pairwise fun a b ↦ a.timestamp ≤ b.timestamp := by
    rw [Sample.comings, EventLog.events_ofEvents]
    decide
  exact (count_series_correct Sample.comings hsorted (by decide) (by decide)).1

end Koalisi.Topology
