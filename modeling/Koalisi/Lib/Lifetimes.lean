import Koalisi.Lib.Spells

/-!
# One lifetime

Where something comes once and goes once, a single half-open interval says when it was
present: from the time it was `born`, the first start, to the time it was `gone`, the last
stop since the last start.  Both are read off a list of moments, and neither reading asks
whether there was anything to stop.

`OneLife` does: nothing starts twice, and what has started stops only while it is present.
Then the interval covers the times of presence (`lives_iff_presentAt`), and there is none
only where there never was anything (`born_eq_none_iff`).
-/

namespace Koalisi.Lib.Moment

variable {T : Type}

/-! ## The two ends -/

/-- The time of the first start. -/
def born (ms : List (Moment T)) : Option T :=
  ms.findSome? fun m ↦ if m.starts then some m.time else none

/-- The last stop since the last start, after one more moment. -/
def goneAfter (gone : Option T) (m : Moment T) : Option T :=
  if m.starts then none else if m.stops then some m.time else gone

/-- The time of the last stop since the last start. -/
def gone (ms : List (Moment T)) : Option T := ms.foldl goneAfter none

/-- The interval between the two ends contains a time. -/
def Lives [LinearOrder T] (ms : List (Moment T)) (t : T) : Prop :=
  ∃ b, born ms = some b ∧ b ≤ t ∧ ∀ d, gone ms = some d → t < d

/-- Nothing starts twice, and what has started stops only while it is present. -/
def OneLife (ms : List (Moment T)) : Prop :=
  ∀ fs m gs, ms = fs ++ m :: gs → (m.starts = true → born fs = none) ∧
    (m.stops = true → born fs ≠ none → present fs = true)

theorem OneLife.of_concat {ms : List (Moment T)} {m : Moment T} (h : OneLife (ms ++ [m])) :
    OneLife ms := fun fs m' gs hs ↦
  h fs m' (gs ++ [m]) (by rw [hs, List.append_assoc, List.cons_append])

/-- One life, told entry by entry of a log. -/
theorem OneLife.of_map {E : Type} {moment : E → Moment T} {log : List E}
    (h : ∀ es e es', log = es ++ e :: es' →
      ((moment e).starts = true → born (es.map moment) = none) ∧
      ((moment e).stops = true → born (es.map moment) ≠ none → present (es.map moment) = true)) :
    OneLife (log.map moment) := by
  intro fs m gs hs
  obtain ⟨es, rest, hes, rfl, hrest⟩ := List.map_eq_append_iff.mp hs
  obtain ⟨e, es', rfl, rfl, rfl⟩ := List.map_eq_cons_iff.mp hrest
  exact h es e es' hes

section Concat

variable (ms : List (Moment T)) (m : Moment T)

theorem born_concat : born (ms ++ [m]) =
    (born ms).or (if m.starts then some m.time else none) := by
  rw [born, List.findSome?_append, List.findSome?_singleton]
  rfl

theorem gone_concat : gone (ms ++ [m]) = goneAfter (gone ms) m := by
  rw [gone, List.foldl_append]
  rfl

/-- The first start keeps its time. -/
theorem born_concat_of_not_starts (h : m.starts = false) : born (ms ++ [m]) = born ms := by
  rw [born_concat, h, if_neg Bool.false_ne_true, Option.or_none]

variable {ms m}

theorem exists_of_born {b : T} (h : born ms = some b) : ∃ m ∈ ms, b = m.time := by
  obtain ⟨m, hm, hb⟩ := List.exists_of_findSome?_eq_some h
  split at hb
  · exact ⟨m, hm, (Option.some.inj hb).symm⟩
  · cases hb

theorem born_eq_none : born ms = none ↔ ∀ m ∈ ms, m.starts = false := by
  rw [born, List.findSome?_eq_none_iff]
  refine forall₂_congr fun m _ ↦ ?_
  cases m.starts <;> simp

end Concat

/-! ## One life -/

variable [LinearOrder T]

/-- What holds of moments each later than the one before, if there is one life. -/
structure Lived (ms : List (Moment T)) : Prop where
  /-- What was born is present until it is gone. -/
  present : born ms ≠ none → (present ms = true ↔ gone ms = none)
  /-- What is born is present then. -/
  born : ∀ b, born ms = some b → presentAt ms b = true
  lives : ∀ t, Lives ms t ↔ presentAt ms t = true

section Lived

variable {ms : List (Moment T)} {m : Moment T}

theorem Lived.nil : Lived ([] : List (Moment T)) where
  present h := absurd rfl h
  born _ h := nomatch h
  lives t := by
    constructor
    · rintro ⟨b, hb, _⟩
      cases hb
    · intro h
      cases h

/-- A start: from here on there is something, and before there was nothing. -/
theorem lives_concat_of_starts (hstarts : m.starts = true) (hnew : Moment.born ms = none) (t : T) :
    Lives (ms ++ [m]) t ↔ m.time ≤ t := by
  have hborn : Moment.born (ms ++ [m]) = some m.time := by
    rw [born_concat, hnew, hstarts]
    rfl
  have hgone : gone (ms ++ [m]) = none := by
    rw [gone_concat, goneAfter, if_pos hstarts]
  rw [Lives, hborn, hgone]
  constructor
  · rintro ⟨b, hb, hle, _⟩
    cases hb
    exact hle
  · intro hle
    exact ⟨m.time, rfl, hle, fun d hd ↦ nomatch hd⟩

/-- A stop that is no start ends the interval that was open. -/
theorem lives_concat_of_stops (hstarts : m.starts = false) (hstops : m.stops = true)
    (hopen : Moment.born ms ≠ none → gone ms = none) (t : T) :
    Lives (ms ++ [m]) t ↔ Lives ms t ∧ t < m.time := by
  have hgone : gone (ms ++ [m]) = some m.time := by
    rw [gone_concat, goneAfter, if_neg (Bool.eq_false_iff.mp hstarts), if_pos hstops]
  rw [Lives, Lives, born_concat_of_not_starts ms m hstarts, hgone]
  constructor
  · rintro ⟨b, hb, hle, hlt⟩
    refine ⟨⟨b, hb, hle, fun d hd ↦ ?_⟩, hlt m.time rfl⟩
    rw [hopen (by rw [hb]; exact Option.some_ne_none b)] at hd
    cases hd
  · rintro ⟨⟨b, hb, hle, _⟩, hlt⟩
    refine ⟨b, hb, hle, fun d hd ↦ ?_⟩
    cases hd
    exact hlt

/-- Any other moment leaves the interval alone. -/
theorem lives_concat_of_neither (hstarts : m.starts = false) (hstops : m.stops = false) (t : T) :
    Lives (ms ++ [m]) t ↔ Lives ms t := by
  have hgone : gone (ms ++ [m]) = gone ms := by
    rw [gone_concat, goneAfter, if_neg (Bool.eq_false_iff.mp hstarts),
      if_neg (Bool.eq_false_iff.mp hstops)]
  rw [Lives, Lives, born_concat_of_not_starts ms m hstarts, hgone]

/-- One more moment, and the interval still covers the times of presence. -/
theorem Lived.lives_concat (h : Lived ms) (hlast : ∀ m' ∈ ms, m'.time < m.time)
    (hone : OneLife (ms ++ [m])) (t : T) :
    Lives (ms ++ [m]) t ↔ presentAt (ms ++ [m]) t = true := by
  obtain ⟨hstart, hstop⟩ := hone ms m [] rfl
  have hopen : m.stops = true → Moment.born ms ≠ none → gone ms = none :=
    fun hs hb ↦ (h.present hb).mp (hstop hs hb)
  rcases lt_or_ge t m.time with ht | ht
  · -- nothing has changed before the moment
    rw [presentAt_concat_of_lt ht, ← h.lives]
    cases hs : m.starts with
    | true =>
        rw [lives_concat_of_starts hs (hstart hs), Lives, hstart hs]
        refine iff_of_false (not_le_of_gt ht) ?_
        rintro ⟨b, hb, _⟩
        cases hb
    | false =>
        cases hp : m.stops with
        | true =>
            rw [lives_concat_of_stops hs hp (hopen hp)]
            exact and_iff_left ht
        | false => exact lives_concat_of_neither hs hp t
  · rw [presentAt_concat_of_le hlast ht, presentAfter]
    cases hs : m.starts with
    | true =>
        rw [lives_concat_of_starts hs (hstart hs)]
        exact iff_of_true ht rfl
    | false =>
        cases hp : m.stops with
        | true =>
            rw [lives_concat_of_stops hs hp (hopen hp)]
            exact iff_of_false (fun hl ↦ not_lt_of_ge ht hl.2) Bool.false_ne_true
        | false =>
            rw [lives_concat_of_neither hs hp, h.lives,
              presentAt_of_le fun m' hm' ↦ ((hlast m' hm').trans_le ht).le]
            rfl

/-- One more moment, later than all before. -/
theorem Lived.concat (h : Lived ms) (hlast : ∀ m' ∈ ms, m'.time < m.time)
    (hone : OneLife (ms ++ [m])) : Lived (ms ++ [m]) where
  present hb := by
    rw [present_concat, gone_concat, presentAfter, goneAfter]
    cases hs : m.starts with
    | true => exact iff_of_true rfl rfl
    | false =>
        rw [born_concat_of_not_starts ms m hs] at hb
        cases m.stops with
        | true => exact iff_of_false Bool.false_ne_true (Option.some_ne_none m.time)
        | false => exact h.present hb
  born b hb := by
    cases hs : m.starts with
    | true =>
        rw [born_concat, (hone ms m [] rfl).1 hs, hs] at hb
        cases hb
        rw [presentAt_concat_of_le hlast le_rfl, presentAfter, hs]
        rfl
    | false =>
        rw [born_concat_of_not_starts ms m hs] at hb
        obtain ⟨m', hm', he⟩ := exists_of_born hb
        rw [presentAt_concat_of_lt (he ▸ hlast m' hm')]
        exact h.born b hb
  lives := h.lives_concat hlast hone

theorem lived (h : ms.Pairwise fun m m' ↦ m.time < m'.time) (hone : OneLife ms) : Lived ms := by
  induction ms using List.reverseRecOn with
  | nil => exact Lived.nil
  | append_singleton ms m ih =>
      obtain ⟨hms, _, hlast⟩ := List.pairwise_append.mp h
      exact (ih hms hone.of_concat).concat
        (fun m' hm' ↦ hlast m' hm' m (List.mem_singleton_self m)) hone

/-- The interval covers the times of presence. -/
theorem lives_iff_presentAt (h : ms.Pairwise fun m m' ↦ m.time < m'.time) (hone : OneLife ms)
    (t : T) : Lives ms t ↔ presentAt ms t = true :=
  (lived h hone).lives t

/-- There is no interval only where there never was anything. -/
theorem born_eq_none_iff (h : ms.Pairwise fun m m' ↦ m.time < m'.time) (hone : OneLife ms) :
    Moment.born ms = none ↔ ∀ t, presentAt ms t = false := by
  constructor
  · intro hb t
    rw [Bool.eq_false_iff, Ne, ← lives_iff_presentAt h hone]
    rintro ⟨b, hb', _⟩
    rw [hb] at hb'
    cases hb'
  · intro hnever
    refine Option.eq_none_iff_forall_ne_some.mpr fun b hb ↦ ?_
    have hpresent := (lived h hone).born b hb
    rw [hnever b] at hpresent
    cases hpresent

end Lived

end Koalisi.Lib.Moment
