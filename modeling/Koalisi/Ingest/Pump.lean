import Koalisi.Decision.Query
import Koalisi.Ingest.Monitor

/-!
# The pump

The pump takes the samples of a source one after the other and feeds each to the monitor that the
router has for its key; a sample that has no monitor is dropped.  It ends when the source is
exhausted, when the token is cancelled, or when the source or a monitor fails.

It may pace itself by the timestamps, and then computes how long after the first sample the next
one is due.  What it computes may be more than a duration can say, and then it panics.  As long as
every due time is a duration, it does not; and what it has fed and dropped when it returns is the
front of the stream (`pump_iff`).
-/

namespace Koalisi.Ingest

open Koalisi.Decision (FloatingPoint)
open Sample

variable {S M F : Type} [Sample S] [FloatingPoint F]

/-! ## What the pump is given -/

inductive Pacing (F : Type) where
  | asap
  /-- Pace by timestamps; a factor that is not positive is none. -/
  | realtime (speedFactor : F)

structure PumpStats where
  fed : Nat
  dropped : Nat
deriving DecidableEq, Repr

/-- What the source has when it is asked for the next sample. -/
inductive Pull (S : Type) where
  | sample (s : S)
  | exhausted
  | failed

/-- What happens while the pump is at one sample. -/
structure Moment where
  /-- The token is cancelled before the source has answered. -/
  cancelled : Bool
  /-- The nanoseconds since the start, when the sample is there. -/
  elapsed : Nat
  /-- The token is cancelled before the sample is due. -/
  cancelledAsleep : Bool
  /-- The task of the monitor that is fed has stopped. -/
  monitorGone : Bool
deriving DecidableEq, Repr

/-- All that a pump is given, and all that happens to it. -/
structure Setting (S M F : Type) [Sample S] where
  source : Nat → Pull S
  /-- The monitors by key. -/
  router : Key S → Option M
  pacing : Pacing F
  moment : Nat → Moment
  /-- A number of seconds, rounded to nanoseconds. -/
  toNanos : F → Nat

/-! ## The loop -/

inductive PumpStatus where
  | running
  | returned
  | failed
  | panicked
deriving DecidableEq, Repr

structure Pump (S M : Type) where
  status : PumpStatus
  /-- How often the source was asked. -/
  pulled : Nat
  baseTs : Option Int64
  stats : PumpStats
  /-- What was fed to whom. -/
  deliveries : List (M × S)

/-- The difference, or the end of the range that it is beyond. -/
def saturatingSub (a b : Int64) : Int :=
  max (-2 ^ 63) (min (2 ^ 63 - 1) (a.toInt - b.toInt))

/-- The seconds after the base that a sample is due. -/
def dueSeconds (base timestampMs : Int64) (speedFactor : F) : F :=
  let deltaMs : Nat := (max (saturatingSub timestampMs base) 0).toNat
  (deltaMs : F) / 1000.0 / speedFactor

/-- Whether a number of seconds is a duration: finite, not negative, and whole seconds in range. -/
def IsDuration (secs : F) : Prop :=
  FloatingPoint.isFinite secs = true ∧ (0.0 : F) ≤ secs ∧ secs < ((2 ^ 64 : Nat) : F)

instance decidableIsDuration (secs : F) : Decidable (IsDuration secs) :=
  inferInstanceAs (Decidable (_ ∧ _ ∧ _))

namespace Setting

variable (w : Setting S M F)

/-- The nanoseconds of some seconds, if these are a duration. -/
def fromSecsF64 (secs : F) : Option Nat := if IsDuration secs then some (w.toNanos secs) else none

/-- Wait until a sample is due: the base from now on, and whether the token was cancelled
meanwhile. -/
def pace (baseTs : Option Int64) (moment : Moment) (s : S) : Option (Option Int64 × Bool) :=
  match w.pacing with
  | .asap => some (baseTs, false)
  | .realtime speedFactor =>
      if ¬(0.0 : F) < speedFactor then some (baseTs, false)
      else do
        let base := baseTs.getD (timestampMs s)
        let targetWall ← w.fromSecsF64 (dueSeconds base (timestampMs s) speedFactor)
        return (some base, decide (moment.elapsed < targetWall) && moment.cancelledAsleep)

/-- Feed a sample to its monitor, or drop it. -/
def route (moment : Moment) (s : S) (p : Pump S M) : Pump S M :=
  match w.router (key s) with
  | some m =>
      if moment.monitorGone then { p with status := .failed }
      else { p with
        stats := { p.stats with fed := p.stats.fed + 1 }
        deliveries := p.deliveries ++ [(m, s)] }
  | none => { p with stats := { p.stats with dropped := p.stats.dropped + 1 } }

/-- One turn of the loop. -/
def step (p : Pump S M) : Pump S M :=
  match p.status with
  | .running =>
      let moment := w.moment p.pulled
      if moment.cancelled then { p with status := .returned }
      else
        let p' := { p with pulled := p.pulled + 1 }
        match w.source p.pulled with
        | .failed => { p' with status := .failed }
        | .exhausted => { p' with status := .returned }
        | .sample s =>
            match w.pace p.baseTs moment s with
            | none => { p' with status := .panicked }
            | some (baseTs, true) => { p' with status := .returned, baseTs }
            | some (baseTs, false) => w.route moment s { p' with baseTs }
  | _ => p

def start : Pump S M :=
  { status := .running, pulled := 0, baseTs := none, stats := ⟨0, 0⟩, deliveries := [] }

/-- The pump after some turns. -/
def run : Nat → Pump S M
  | 0 => start
  | n + 1 => w.step (run n)

/-! ## One turn -/

/-- Where the next sample is due at a time that a duration can say. -/
def Punctual (p : Pump S M) : Prop :=
  p.status = .running → (w.moment p.pulled).cancelled = false →
    ∀ s, w.source p.pulled = .sample s → ∀ speedFactor, w.pacing = .realtime speedFactor →
      (0.0 : F) < speedFactor →
        IsDuration (dueSeconds (p.baseTs.getD (timestampMs s)) (timestampMs s) speedFactor)

/-- What one turn of a running pump comes to. -/
inductive Turns (p : Pump S M) : Pump S M → Prop where
  | cancelled (hcancelled : (w.moment p.pulled).cancelled = true) :
      Turns p { p with status := .returned }
  | failed (pulled : Nat) : Turns p { p with status := .failed, pulled }
  | exhausted (pulled : Nat) (hsource : w.source p.pulled = .exhausted) :
      Turns p { p with status := .returned, pulled }
  | panicked (pulled : Nat) (hpunctual : ¬w.Punctual p) :
      Turns p { p with status := .panicked, pulled }
  | asleep (pulled : Nat) (baseTs : Option Int64)
      (hcancelled : (w.moment p.pulled).cancelledAsleep = true) :
      Turns p { p with status := .returned, pulled, baseTs }
  | fed (m : M) (s : S) (baseTs : Option Int64) (hsource : w.source p.pulled = .sample s)
      (hrouter : w.router (key s) = some m) :
      Turns p { p with
        pulled := p.pulled + 1
        baseTs
        stats := { p.stats with fed := p.stats.fed + 1 }
        deliveries := p.deliveries ++ [(m, s)] }
  | gone (baseTs : Option Int64) :
      Turns p { p with status := .failed, pulled := p.pulled + 1, baseTs }
  | dropped (s : S) (baseTs : Option Int64) (hsource : w.source p.pulled = .sample s)
      (hrouter : w.router (key s) = none) :
      Turns p { p with
        pulled := p.pulled + 1
        baseTs
        stats := { p.stats with dropped := p.stats.dropped + 1 } }

variable {w} {p : Pump S M}

/-- The only way not to know when a sample is due. -/
theorem pace_eq_none {baseTs : Option Int64} {moment : Moment} {s : S} :
    w.pace baseTs moment s = none ↔ ∃ speedFactor, w.pacing = .realtime speedFactor ∧
      (0.0 : F) < speedFactor ∧
        ¬IsDuration (dueSeconds (baseTs.getD (timestampMs s)) (timestampMs s) speedFactor) := by
  rw [pace]
  cases hpacing : w.pacing with
  | asap =>
      constructor
      · rintro ⟨⟩
      · rintro ⟨_, ⟨⟩, -⟩
  | realtime speedFactor =>
      dsimp only
      by_cases hpos : (0.0 : F) < speedFactor
      · rw [if_neg (not_not_intro hpos), fromSecsF64]
        constructor
        · intro h
          refine ⟨speedFactor, rfl, hpos, fun hduration ↦ ?_⟩
          rw [if_pos hduration] at h
          cases h
        · rintro ⟨_, ⟨⟩, -, hduration⟩
          rw [if_neg hduration]
          rfl
      · rw [if_pos hpos]
        constructor
        · rintro ⟨⟩
        · rintro ⟨_, ⟨⟩, hpos', -⟩
          exact absurd hpos' hpos

/-- Whoever is cancelled asleep is cancelled. -/
theorem cancelledAsleep_of_pace {baseTs baseTs' : Option Int64} {moment : Moment} {s : S}
    (h : w.pace baseTs moment s = some (baseTs', true)) : moment.cancelledAsleep = true := by
  rw [pace] at h
  split at h
  · cases h
  · split at h
    · cases h
    · obtain ⟨targetWall, -, h⟩ := Option.bind_eq_some_iff.mp h
      have hasleep := congrArg Prod.snd (Option.some.inj h)
      exact (Bool.and_eq_true_iff.mp hasleep).2

theorem step_turns (hrunning : p.status = .running) : w.Turns p (w.step p) := by
  rw [step, hrunning]
  dsimp only
  split
  case isTrue hcancelled => exact .cancelled hcancelled
  case isFalse hcancelled =>
    cases hsource : w.source p.pulled with
    | failed => exact .failed _
    | exhausted => exact .exhausted _ hsource
    | sample s =>
        dsimp only
        cases hpace : w.pace p.baseTs (w.moment p.pulled) s with
        | none =>
            refine .panicked _ fun hpunctual ↦ ?_
            obtain ⟨speedFactor, hpacing, hpos, hduration⟩ := pace_eq_none.mp hpace
            exact hduration (hpunctual hrunning (Bool.eq_false_iff.mpr hcancelled) s hsource
              speedFactor hpacing hpos)
        | some paced =>
            obtain ⟨baseTs, asleep⟩ := paced
            cases asleep with
            | true => exact .asleep _ _ (cancelledAsleep_of_pace hpace)
            | false =>
                dsimp only
                rw [route]
                cases hrouter : w.router (key s) with
                | none =>
                    have hturn := Turns.dropped s baseTs hsource hrouter
                    rw [hrunning] at hturn
                    exact hturn
                | some m =>
                    dsimp only
                    split
                    · exact .gone _
                    · have hturn := Turns.fed m s baseTs hsource hrouter
                      rw [hrunning] at hturn
                      exact hturn

theorem step_of_ne_running (h : p.status ≠ .running) : w.step p = p := by
  rw [step]
  split
  · next hrunning => exact absurd hrunning h
  · rfl

/-- A sample that is due at no time that a duration can say makes the pump panic. -/
theorem status_step_of_not_punctual (h : ¬w.Punctual p) : (w.step p).status = .panicked := by
  rw [Punctual] at h
  push Not at h
  obtain ⟨hrunning, hcancelled, s, hsource, speedFactor, hpacing, hpos, hduration⟩ := h
  have hpace : w.pace p.baseTs (w.moment p.pulled) s = none :=
    pace_eq_none.mpr ⟨speedFactor, hpacing, hpos, hduration⟩
  rw [step, hrunning]
  dsimp only
  rw [hcancelled, if_neg Bool.false_ne_true, hsource]
  dsimp only
  rw [hpace]

theorem status_step_ne_panicked (h : w.Punctual p) (hstatus : p.status ≠ .panicked) :
    (w.step p).status ≠ .panicked := by
  by_cases hrunning : p.status = .running
  · intro hpanicked
    have hturn := step_turns (w := w) hrunning
    generalize w.step p = p' at hturn hpanicked
    cases hturn with
    | cancelled _ => cases hpanicked
    | failed _ => cases hpanicked
    | exhausted _ _ => cases hpanicked
    | panicked _ hpunctual => exact hpunctual h
    | asleep _ _ _ => cases hpanicked
    | fed _ _ _ _ _ => exact hstatus hpanicked
    | gone _ => cases hpanicked
    | dropped _ _ _ _ => exact hstatus hpanicked
  · rw [step_of_ne_running hrunning]
    exact hstatus

/-! ## What is delivered -/

/-- The first samples of the source. -/
def Front (w : Setting S M F) (n : Nat) (front : List S) : Prop :=
  List.Forall₂ (fun i s ↦ w.source i = .sample s) (List.range n) front

omit [FloatingPoint F] in
/-- One sample more. -/
theorem Front.concat {n : Nat} {front : List S} {s : S} (h : w.Front n front)
    (hs : w.source n = .sample s) : w.Front (n + 1) (front ++ [s]) := by
  rw [Front, List.range_succ]
  exact List.rel_append h (.cons hs .nil)

section Deliveries

variable [DecidableEq M]

/-- The samples that a monitor was fed, oldest first. -/
def received (deliveries : List (M × S)) (m : M) : List S :=
  (deliveries.filter fun d ↦ d.1 = m).map (·.2)

/-- What was fed and dropped is a front of the stream, and every monitor has received what the
router has for it. -/
structure DeliversFront (w : Setting S M F) (stats : PumpStats) (deliveries : List (M × S))
    (front : List S) : Prop where
  isFront : w.Front (stats.fed + stats.dropped) front
  fed_eq : stats.fed = front.countP fun s ↦ (w.router (key s)).isSome
  received_eq : ∀ m, received deliveries m = front.filter fun s ↦ w.router (key s) = some m

omit [FloatingPoint F] in
theorem DeliversFront.fed {stats : PumpStats} {deliveries : List (M × S)} {front : List S} {m : M}
    {s : S} (h : w.DeliversFront stats deliveries front)
    (hsource : w.source (stats.fed + stats.dropped) = .sample s)
    (hrouter : w.router (key s) = some m) :
    w.DeliversFront { stats with fed := stats.fed + 1 } (deliveries ++ [(m, s)])
      (front ++ [s]) where
  isFront := by
    have hconcat := h.isFront.concat hsource
    rw [Nat.add_right_comm] at hconcat
    exact hconcat
  fed_eq := by
    rw [List.countP_append, List.countP_singleton, hrouter, ← h.fed_eq]
    rfl
  received_eq m' := by
    rw [List.filter_append, ← h.received_eq m', received, List.filter_append, List.map_append]
    refine congrArg _ ?_
    by_cases hm : m = m'
    · rw [List.filter_cons_of_pos (by simpa using hm),
        List.filter_cons_of_pos (by simpa [hrouter] using hm)]
      rfl
    · rw [List.filter_cons_of_neg (by simpa using hm),
        List.filter_cons_of_neg (by simpa [hrouter] using hm)]
      rfl

omit [FloatingPoint F] in
theorem DeliversFront.dropped {stats : PumpStats} {deliveries : List (M × S)} {front : List S}
    {s : S} (h : w.DeliversFront stats deliveries front)
    (hsource : w.source (stats.fed + stats.dropped) = .sample s)
    (hrouter : w.router (key s) = none) :
    w.DeliversFront { stats with dropped := stats.dropped + 1 } deliveries (front ++ [s]) where
  isFront := h.isFront.concat hsource
  fed_eq := by
    rw [List.countP_append, List.countP_singleton, hrouter, ← h.fed_eq]
    rfl
  received_eq m' := by
    rw [List.filter_append, ← h.received_eq m', List.filter_cons_of_neg (by simp [hrouter]),
      List.filter_nil, List.append_nil]

/-- What holds while the pump runs, and when it has returned. -/
structure Sound (w : Setting S M F) (p : Pump S M) : Prop where
  delivers : ∃ front, w.DeliversFront p.stats p.deliveries front
  pulled_eq : p.status = .running → p.pulled = p.stats.fed + p.stats.dropped
  whole : p.status = .returned →
    w.source (p.stats.fed + p.stats.dropped) = .exhausted ∨
      (w.moment (p.stats.fed + p.stats.dropped)).cancelled = true ∨
      (w.moment (p.stats.fed + p.stats.dropped)).cancelledAsleep = true

omit [FloatingPoint F] in
theorem sound_start : w.Sound start where
  delivers := ⟨[], .nil, rfl, fun _ ↦ rfl⟩
  pulled_eq _ := rfl
  whole := by rintro ⟨⟩

theorem sound_step (h : w.Sound p) : w.Sound (w.step p) := by
  by_cases hrunning : p.status = .running
  · have hturn := step_turns (w := w) hrunning
    have hpulled := h.pulled_eq hrunning
    obtain ⟨front, hdelivers⟩ := h.delivers
    generalize w.step p = p' at hturn
    cases hturn with
    | cancelled hcancelled =>
        rw [hpulled] at hcancelled
        exact ⟨h.delivers, by rintro ⟨⟩, fun _ ↦ .inr (.inl hcancelled)⟩
    | failed _ => exact ⟨h.delivers, by rintro ⟨⟩, by rintro ⟨⟩⟩
    | exhausted _ hsource =>
        rw [hpulled] at hsource
        exact ⟨h.delivers, by rintro ⟨⟩, fun _ ↦ .inl hsource⟩
    | panicked _ _ => exact ⟨h.delivers, by rintro ⟨⟩, by rintro ⟨⟩⟩
    | asleep _ _ hcancelled =>
        rw [hpulled] at hcancelled
        exact ⟨h.delivers, by rintro ⟨⟩, fun _ ↦ .inr (.inr hcancelled)⟩
    | fed m s _ hsource hrouter =>
        rw [hpulled] at hsource
        refine ⟨⟨_, hdelivers.fed hsource hrouter⟩, ?_, ?_⟩
        · intro _
          rw [hpulled]
          exact Nat.add_right_comm _ _ 1
        · intro hreturned
          cases hrunning.symm.trans hreturned
    | gone _ => exact ⟨h.delivers, by rintro ⟨⟩, by rintro ⟨⟩⟩
    | dropped s _ hsource hrouter =>
        rw [hpulled] at hsource
        refine ⟨⟨_, hdelivers.dropped hsource hrouter⟩, ?_, ?_⟩
        · intro _
          rw [hpulled]
          rfl
        · intro hreturned
          cases hrunning.symm.trans hreturned
  · rw [step_of_ne_running hrunning]
    exact h

theorem sound_run (n : Nat) : w.Sound (w.run n) := by
  induction n with
  | zero => exact sound_start
  | succ n ih => exact sound_step ih

/-- The token was not cancelled while the pump was at one of the first samples. -/
def Uncancelled (w : Setting S M F) (n : Nat) : Prop :=
  ∀ i ≤ n, (w.moment i).cancelled = false ∧ (w.moment i).cancelledAsleep = false

/-- What a pump owes that has returned: what it has fed and dropped is a front of the stream, all
of it if the token was not cancelled, and who has a key of its own has received all samples of
that key. -/
def Delivers (w : Setting S M F) (p : Pump S M) : Prop :=
  ∃ front, w.DeliversFront p.stats p.deliveries front ∧
    p.stats.fed + p.stats.dropped = front.length ∧
    (w.Uncancelled front.length → w.source front.length = .exhausted) ∧
    ∀ k m, w.router k = some m → (∀ k', w.router k' = some m → k' = k) →
      received p.deliveries m = front.filter fun s ↦ key s = k

omit [FloatingPoint F] in
theorem delivers_of_sound (h : w.Sound p) (hreturned : p.status = .returned) : w.Delivers p := by
  obtain ⟨front, hdelivers⟩ := h.delivers
  have hlength : p.stats.fed + p.stats.dropped = front.length := by
    have hrange := hdelivers.isFront.length_eq
    rwa [List.length_range] at hrange
  refine ⟨front, hdelivers, hlength, ?_, ?_⟩
  · intro huncancelled
    obtain ⟨hcancelled, hasleep⟩ := huncancelled front.length le_rfl
    have hwhole := h.whole hreturned
    rw [hlength, hcancelled, hasleep] at hwhole
    rcases hwhole with hexhausted | h | h
    · exact hexhausted
    · cases h
    · cases h
  · intro k m hm hown
    rw [hdelivers.received_eq m]
    refine List.filter_congr fun s _ ↦ decide_eq_decide.mpr ⟨hown (key s), ?_⟩
    rintro rfl
    exact hm

/-- The pump never panics, and delivers a front of the stream when it returns, if and only if every
due time that it comes to is a duration. -/
theorem pump_iff (w : Setting S M F) :
    (∀ n, (w.run n).status ≠ .panicked ∧ ((w.run n).status = .returned → w.Delivers (w.run n))) ↔
      ∀ n, w.Punctual (w.run n) := by
  constructor
  · intro h n
    by_contra hpunctual
    exact (h (n + 1)).1 (status_step_of_not_punctual hpunctual)
  · intro h n
    refine ⟨?_, delivers_of_sound (sound_run n)⟩
    induction n with
    | zero => rintro ⟨⟩
    | succ n ih => exact status_step_ne_panicked (h n) ih

/-! ### Two samples, a millisecond apart -/

section Example

attribute [local instance] Decision.exactNumbers

/-- Two samples of one series that has a monitor, at some pace. -/
def twoSamples (pacing : Pacing ℚ) : Setting (NumericSample ℚ) Unit ℚ where
  source i := match i with
    | 0 => .sample ⟨"load", 1, 0⟩
    | 1 => .sample ⟨"load", 2, 1⟩
    | _ => .exhausted
  router k := if k = "load" then some () else none
  pacing
  moment _ := ⟨false, 0, false, false⟩
  toNanos secs := (secs * 10 ^ 9).floor.toNat

/-- At wall-clock pace both are fed. -/
example : ((twoSamples (.realtime 1)).run 3).stats = ⟨2, 0⟩ := by decide +kernel

/-- Slowed down far enough, the second sample is due after more seconds than fit. -/
theorem slow_pump_panics :
    ((twoSamples (.realtime (1 / 10 ^ 30))).run 2).status = .panicked ∧
      ¬∀ n, ((twoSamples (.realtime (1 / 10 ^ 30))).run n).status ≠ .panicked ∧
        (((twoSamples (.realtime (1 / 10 ^ 30))).run n).status = .returned →
          (twoSamples (.realtime (1 / 10 ^ 30))).Delivers
            ((twoSamples (.realtime (1 / 10 ^ 30))).run n)) := by
  have hpanicked : ((twoSamples (.realtime (1 / 10 ^ 30))).run 2).status = .panicked := by
    decide +kernel
  exact ⟨hpanicked, fun h ↦ (h 2).1 hpanicked⟩

end Example

end Deliveries

end Setting

end Koalisi.Ingest
