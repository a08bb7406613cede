import Mathlib.Data.List.Induction
import Mathlib.Order.Lattice

/-!
# Spells

Something comes and goes, and what is recorded of it are its *spells*: half-open
intervals of time for those that are over, and a start for the one that is not.  A
`Moment` stops the spell, starts one, or does both, in this order.

Spells that are recorded at the moments of a list, each later than the one before, cover
the times at which the thing was present, if and only if no moment starts a spell while
another one goes on: such a start takes the place of the earlier one, and what came
before is forgotten.
-/

namespace Koalisi.Lib

/-- The spells that are over, and the start of the one that is not. -/
structure Spells (T : Type) where
  past : List (T × T)
  since : Option T

/-- A time at which a spell may stop, and then one may start. -/
structure Moment (T : Type) where
  time : T
  stops : Bool
  starts : Bool

namespace Moment

variable {T : Type}

/-- Whether something is present after a moment. -/
def presentAfter (present : Bool) (m : Moment T) : Bool := m.starts || (!m.stops && present)

/-- Whether something is present after a list of moments. -/
def present (ms : List (Moment T)) : Bool := ms.foldl presentAfter false

theorem present_concat (ms : List (Moment T)) (m : Moment T) :
    present (ms ++ [m]) = m.presentAfter (present ms) := by
  rw [present, List.foldl_append]
  rfl

/-- A moment of a list starts a spell while another one goes on. -/
def Restarts (ms : List (Moment T)) : Prop :=
  ∃ fs m gs, ms = fs ++ m :: gs ∧ m.starts = true ∧ m.stops = false ∧ present fs = true

theorem restarts_concat {ms : List (Moment T)} {m : Moment T} : Restarts (ms ++ [m]) ↔
    Restarts ms ∨ m.starts = true ∧ m.stops = false ∧ present ms = true := by
  constructor
  · rintro ⟨fs, m', gs, hs, hm⟩
    rcases List.eq_nil_or_concat gs with rfl | ⟨gs, g, rfl⟩
    · obtain ⟨rfl, he⟩ := List.append_inj' hs rfl
      cases he
      exact Or.inr hm
    · rw [List.concat_eq_append, ← List.cons_append, ← List.append_assoc] at hs
      exact Or.inl ⟨fs, m', gs, (List.append_inj' hs rfl).1, hm⟩
  · rintro (⟨fs, m', gs, rfl, hm⟩ | hm)
    · exact ⟨fs, m', gs ++ [m], by simp, hm⟩
    · exact ⟨ms, m, [], rfl, hm⟩

/-- Whether something is present at a time. -/
def presentAt [LinearOrder T] (ms : List (Moment T)) (t : T) : Bool :=
  present (ms.filter (·.time ≤ t))

section PresentAt

variable [LinearOrder T] {ms : List (Moment T)} {m : Moment T} {t : T}

/-- A later moment changes nothing. -/
theorem presentAt_concat_of_lt (h : t < m.time) : presentAt (ms ++ [m]) t = presentAt ms t := by
  have hnil : [m].filter (fun m ↦ decide (m.time ≤ t)) = [] := by
    refine List.filter_eq_nil_iff.mpr fun m' hm ↦ ?_
    rw [List.mem_singleton.mp hm, decide_eq_true_eq]
    exact not_le_of_gt h
  rw [presentAt, presentAt, List.filter_append, hnil, List.append_nil]

/-- From the last moment on, what counts is the whole list. -/
theorem presentAt_of_le (h : ∀ m ∈ ms, m.time ≤ t) : presentAt ms t = present ms := by
  rw [presentAt, List.filter_eq_self.mpr fun m hm ↦ decide_eq_true (h m hm)]

/-- From a moment on, later than all before, it is the last word. -/
theorem presentAt_concat_of_le (hlast : ∀ m' ∈ ms, m'.time < m.time) (ht : m.time ≤ t) :
    presentAt (ms ++ [m]) t = m.presentAfter (Moment.present ms) := by
  rw [← present_concat]
  refine presentAt_of_le fun m' hm' ↦ ?_
  rcases List.mem_append.mp hm' with hm' | hm'
  · exact ((hlast m' hm').trans_le ht).le
  · rw [List.mem_singleton.mp hm']
    exact ht

end PresentAt

end Moment

namespace Spells

open Moment

variable {T : Type}

/-- No spell. -/
def none : Spells T := ⟨[], .none⟩

/-- A spell stops, if one goes on. -/
def stop (x : Spells T) (t : T) : Spells T :=
  match x.since with
  | some s => ⟨x.past ++ [(s, t)], .none⟩
  | .none => x

theorem stop_of_none {x : Spells T} (h : x.since = .none) (t : T) : x.stop t = x := by
  rw [stop, h]

theorem stop_of_some {x : Spells T} {s : T} (h : x.since = some s) (t : T) :
    x.stop t = ⟨x.past ++ [(s, t)], .none⟩ := by
  rw [stop, h]

/-- A spell that has stopped does not stop again. -/
theorem stop_stop (x : Spells T) (t : T) : (x.stop t).stop t = x.stop t := by
  cases h : x.since with
  | none => rw [stop_of_none h, stop_of_none h]
  | some s =>
      rw [stop_of_some h]
      rfl

/-- A spell starts. -/
def start (x : Spells T) (t : T) : Spells T := { x with since := some t }

/-- What a moment makes of the spells. -/
def moment (x : Spells T) (m : Moment T) : Spells T :=
  let x := if m.stops then x.stop m.time else x
  if m.starts then x.start m.time else x

/-- The spells recorded at a list of moments. -/
def recorded (ms : List (Moment T)) : Spells T := ms.foldl moment none

theorem recorded_concat (ms : List (Moment T)) (m : Moment T) :
    recorded (ms ++ [m]) = (recorded ms).moment m := by
  rw [recorded, List.foldl_append]
  rfl

section Moments

variable {x : Spells T} {m : Moment T} {t : T}

theorem since_moment : (x.moment m).since =
    if m.starts then some m.time else if m.stops then .none else x.since := by
  unfold moment
  cases m.starts with
  | true => rfl
  | false =>
      cases m.stops with
      | false => rfl
      | true =>
          simp only [if_true, Bool.false_eq_true, if_false]
          cases hs : x.since with
          | none => rw [stop_of_none hs, hs]
          | some s => rw [stop_of_some hs]

theorem mem_past_moment {p : T × T} : p ∈ (x.moment m).past ↔
    p ∈ x.past ∨ m.stops = true ∧ x.since = some p.1 ∧ p.2 = m.time := by
  have hpast : (x.moment m).past = (if m.stops then x.stop m.time else x).past := by
    unfold moment
    cases m.starts <;> rfl
  rw [hpast]
  cases m.stops with
  | false => simp
  | true =>
      rw [if_pos rfl]
      cases hs : x.since with
      | none => simp [stop_of_none hs]
      | some s =>
          simp only [stop_of_some hs, List.mem_append, List.mem_singleton, true_and,
            Option.some.injEq]
          refine or_congr Iff.rfl ⟨?_, ?_⟩
          · rintro rfl
            exact ⟨rfl, rfl⟩
          · rintro ⟨hp, hq⟩
            rw [hp, ← hq]

end Moments

variable [LinearOrder T]

/-- A time lies in a spell. -/
def Covers (x : Spells T) (t : T) : Prop :=
  (∃ p ∈ x.past, p.1 ≤ t ∧ t < p.2) ∨ ∃ s, x.since = some s ∧ s ≤ t

/-- What holds of the spells recorded at moments each later than the one before. -/
structure Tracks (ms : List (Moment T)) (x : Spells T) : Prop where
  present : x.since.isSome = present ms
  since : ∀ s, x.since = some s → (∃ m ∈ ms, s = m.time) ∧ (∀ p ∈ x.past, p.2 ≤ s) ∧
    presentAt ms s = true
  past : ∀ p ∈ x.past, ∃ m ∈ ms, p.2 = m.time
  faithful : ¬ Restarts ms → ∀ t, x.Covers t ↔ presentAt ms t = true
  forgets : Restarts ms → ∃ t, (∃ m ∈ ms, t ≤ m.time) ∧ ¬ x.Covers t ∧ presentAt ms t = true

section Tracks

variable {ms : List (Moment T)} {x : Spells T} {m : Moment T}

/-- From a moment that is later than all before, a time is covered while a spell goes on. -/
theorem Tracks.covers_of_le (h : Tracks ms x) (hlast : ∀ m' ∈ ms, m'.time < m.time) {t : T}
    (ht : m.time ≤ t) : (x.moment m).Covers t ↔ m.presentAfter (Moment.present ms) = true := by
  have hpast : ¬ ∃ p ∈ (x.moment m).past, p.1 ≤ t ∧ t < p.2 := by
    rintro ⟨p, hp, _, hlt⟩
    rcases mem_past_moment.mp hp with hp | ⟨_, _, hp⟩
    · obtain ⟨m', hm', he⟩ := h.past p hp
      exact absurd ((hlast m' hm').trans_le ht) (not_lt_of_gt (he ▸ hlt))
    · exact absurd ht (not_le_of_gt (hp ▸ hlt))
  have hsince : ∀ s, x.since = some s → s ≤ t := by
    intro s hs
    obtain ⟨⟨m', hm', rfl⟩, _⟩ := h.since s hs
    exact ((hlast m' hm').trans_le ht).le
  rw [Covers, or_iff_right hpast, since_moment, presentAfter, ← h.present]
  cases m.starts with
  | true => exact ⟨fun _ ↦ rfl, fun _ ↦ ⟨m.time, rfl, ht⟩⟩
  | false =>
      cases m.stops with
      | true => exact ⟨fun ⟨s, hs, _⟩ ↦ by simp at hs, fun h ↦ by simp at h⟩
      | false =>
          cases hs : x.since with
          | none => exact ⟨fun ⟨s, hs, _⟩ ↦ by simp at hs, fun h ↦ by simp at h⟩
          | some s => exact ⟨fun _ ↦ rfl, fun _ ↦ ⟨s, rfl, hsince s hs⟩⟩

/-- Before the last moment, what is covered was covered before; nothing is forgotten unless a
spell is started while another one goes on. -/
theorem covers_of_lt {t : T} (ht : t < m.time) :
    ((x.moment m).Covers t → x.Covers t) ∧
      (¬ (m.starts = true ∧ m.stops = false ∧ x.since.isSome = true) →
        x.Covers t → (x.moment m).Covers t) := by
  constructor
  · rintro (⟨p, hp, hle, hlt⟩ | ⟨s, hs, hle⟩)
    · rcases mem_past_moment.mp hp with hp | ⟨_, hs, _⟩
      · exact Or.inl ⟨p, hp, hle, hlt⟩
      · exact Or.inr ⟨p.1, hs, hle⟩
    · rw [since_moment] at hs
      split at hs
      · cases hs
        exact absurd hle (not_le_of_gt ht)
      · split at hs
        · cases hs
        · exact Or.inr ⟨s, hs, hle⟩
  · rintro hn (⟨p, hp, hle, hlt⟩ | ⟨s, hs, hle⟩)
    · exact Or.inl ⟨p, mem_past_moment.mpr (Or.inl hp), hle, hlt⟩
    · cases hstop : m.stops with
      | true => exact Or.inl ⟨(s, m.time), mem_past_moment.mpr (Or.inr ⟨hstop, hs, rfl⟩), hle, ht⟩
      | false =>
          cases hstart : m.starts with
          | true => exact absurd ⟨hstart, hstop, by rw [hs]; rfl⟩ hn
          | false =>
              refine Or.inr ⟨s, ?_, hle⟩
              rw [since_moment, hstart, hstop]
              exact hs

/-- One more moment, later than all before. -/
theorem Tracks.concat (h : Tracks ms x) (hlast : ∀ m' ∈ ms, m'.time < m.time) :
    Tracks (ms ++ [m]) (x.moment m) := by
  refine ⟨?_, fun s hs ↦ ?_, fun p hp ↦ ?_, fun hn t ↦ ?_, fun hr ↦ ?_⟩
  · rw [present_concat, since_moment, presentAfter, ← h.present]
    cases m.starts <;> cases m.stops <;> simp
  · rw [since_moment] at hs
    split at hs
    · rename_i hstart
      cases hs
      refine ⟨⟨m, by simp, rfl⟩, fun p hp ↦ ?_, ?_⟩
      · rcases mem_past_moment.mp hp with hp | ⟨_, _, hp⟩
        · obtain ⟨m', hm', he⟩ := h.past p hp
          exact he ▸ (hlast m' hm').le
        · exact hp.le
      · rw [presentAt_concat_of_le hlast le_rfl, presentAfter, hstart]
        rfl
    · split at hs
      · cases hs
      · rename_i hstart hstop
        obtain ⟨⟨m', hm', he⟩, hpast, hpresent⟩ := h.since s hs
        refine ⟨⟨m', List.mem_append_left _ hm', he⟩, fun p hp ↦ ?_, ?_⟩
        · rcases mem_past_moment.mp hp with hp | ⟨hstop', _⟩
          · exact hpast p hp
          · exact absurd hstop' hstop
        · rw [presentAt_concat_of_lt (he ▸ hlast m' hm')]
          exact hpresent
  · rcases mem_past_moment.mp hp with hp | ⟨_, _, hp⟩
    · obtain ⟨m', hm', he⟩ := h.past p hp
      exact ⟨m', List.mem_append_left _ hm', he⟩
    · exact ⟨m, by simp, hp⟩
  · rw [restarts_concat, not_or] at hn
    rcases lt_or_ge t m.time with ht | ht
    · rw [presentAt_concat_of_lt ht, ← h.faithful hn.1]
      exact ⟨(covers_of_lt ht).1, (covers_of_lt ht).2 (by rw [h.present]; exact hn.2)⟩
    · rw [h.covers_of_le hlast ht, presentAt_concat_of_le hlast ht]
  · rcases restarts_concat.mp hr with hr | ⟨hstart, hstop, hpresent⟩
    · obtain ⟨t, ⟨m', hm', hle⟩, hn, hp⟩ := h.forgets hr
      have ht : t < m.time := hle.trans_lt (hlast m' hm')
      exact ⟨t, ⟨m', List.mem_append_left _ hm', hle⟩, fun hc ↦ hn ((covers_of_lt ht).1 hc),
        by rw [presentAt_concat_of_lt ht]; exact hp⟩
    · -- the start of the spell that went on is forgotten
      rw [← h.present, Option.isSome_iff_exists] at hpresent
      obtain ⟨s, hs⟩ := hpresent
      obtain ⟨⟨m', hm', he⟩, hpast, hp⟩ := h.since s hs
      have hlt : s < m.time := he ▸ hlast m' hm'
      refine ⟨s, ⟨m', List.mem_append_left _ hm', he.le⟩, ?_, by
        rw [presentAt_concat_of_lt hlt]; exact hp⟩
      rintro (⟨p, hmem, _, hlt'⟩ | ⟨s', hs', hle⟩)
      · rcases mem_past_moment.mp hmem with hmem | ⟨hstop', _⟩
        · exact absurd hlt' (not_lt_of_ge (hpast p hmem))
        · rw [hstop] at hstop'
          cases hstop'
      · rw [since_moment, hstart] at hs'
        cases hs'
        exact absurd hle (not_le_of_gt hlt)

theorem tracks_recorded (h : ms.Pairwise fun m m' ↦ m.time < m'.time) :
    Tracks ms (recorded ms) := by
  induction ms using List.reverseRecOn with
  | nil =>
      refine ⟨rfl, fun s hs ↦ (nomatch hs), fun p hp ↦ (nomatch hp), fun _ t ↦ ⟨?_, ?_⟩, ?_⟩
      · rintro (⟨p, hp, _⟩ | ⟨s, hs, _⟩)
        · cases hp
        · cases hs
      · exact fun h ↦ nomatch h
      · rintro ⟨fs, m, gs, hs, _⟩
        exact absurd hs.symm (List.append_ne_nil_of_right_ne_nil _ (List.cons_ne_nil _ _))
  | append_singleton ms m ih =>
      obtain ⟨hms, _, hlast⟩ := List.pairwise_append.mp h
      rw [recorded_concat]
      exact (ih hms).concat fun m' hm' ↦ hlast m' hm' m (List.mem_singleton_self m)

/-- Spells cover the times of presence if and only if none is started while another one goes
on. -/
theorem covers_iff_not_restarts (h : ms.Pairwise fun m m' ↦ m.time < m'.time) :
    (∀ t, (recorded ms).Covers t ↔ presentAt ms t = true) ↔ ¬ Restarts ms := by
  have ht := tracks_recorded h
  refine ⟨fun hc hr ↦ ?_, ht.faithful⟩
  obtain ⟨t, _, hn, hp⟩ := ht.forgets hr
  exact hn ((hc t).mpr hp)

end Tracks

end Spells

end Koalisi.Lib
