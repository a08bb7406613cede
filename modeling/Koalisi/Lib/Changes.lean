import Mathlib.Data.List.Basic
import Mathlib.Data.List.Induction
import Mathlib.Order.RelClasses
import Koalisi.Lib.Sampling

/-!
# Sampling a log where it changes something

A walk along a log takes in all the entries of an instant, and then takes a sample if one of
them was noted.  Over an ordered log it samples the instants at which an entry is noted, those
and no other, and a sample shows the state that the entries up to its instant leave
(`mem_sampleChanges`).

A reader asks for the last sample at or before an instant.  The sample shows the state there,
whatever the instant, if and only if the instants that pass unnoted leave what is shown as it
was (`sampled_tells_iff`).
-/

universe u v w x

namespace Koalisi.Lib

variable {E : Type u} {T : Type v} {α : Type w} {β : Type x}

/-! ## The walk -/

section Walk

variable [LinearOrder T] (time : E → T) (step : α → E → α) (noted : α → E → Bool) (out : α → β)

/-- Take in the entries at `t`, and note whether there is a change among them. -/
def settle (t : T) : Bool → α → List E → Bool × α × List E
  | changed, a, [] => (changed, a, [])
  | changed, a, e :: rest =>
      if time e = t then settle t (changed || noted a e) (step a e) rest
      else (changed, a, e :: rest)

theorem length_settle_le (t : T) (changed : Bool) (a : α) (log : List E) :
    (settle time step noted t changed a log).2.2.length ≤ log.length := by
  induction log generalizing changed a with
  | nil => exact le_rfl
  | cons e rest ih =>
      rw [settle]
      split
      · exact (ih _ _).trans (Nat.le_succ _)
      · exact le_rfl

/-- One sample for every instant up to `stop` with a change. -/
def sampleChanges (stop : T) (a : α) : List E → List (T × β)
  | [] => []
  | e :: rest =>
      if stop < time e then []
      else
        let settled := settle time step noted (time e) false a (e :: rest)
        if settled.1 then (time e, out settled.2.1) :: sampleChanges stop settled.2.1 settled.2.2
        else sampleChanges stop settled.2.1 settled.2.2
termination_by log => log.length
decreasing_by
  all_goals
    rw [settle, if_pos rfl]
    exact Nat.lt_succ_of_le (length_settle_le time step noted (time e) _ _ rest)

/-- The entries up to `start` are taken in first, with a sample if there is something to
show. -/
def sampled (live : α → Bool) (start stop : T) (a : α) (log : List E) : List (T × β) :=
  let (a, rest) := drain time step start a log
  (if start ≤ stop ∧ live a then [(start, out a)] else []) ++
    sampleChanges time step noted out stop a rest

/-- The state that the entries up to `t` leave. -/
def stateAt (a : α) (log : List E) (t : T) : α := (log.filter fun e ↦ time e ≤ t).foldl step a

/-- The state that the entries before `t` leave. -/
def stateBefore (a : α) (log : List E) (t : T) : α :=
  (log.filter fun e ↦ time e < t).foldl step a

end Walk

/-- Some entry at `t` is noted, in the state it finds. -/
def NotedAt (time : E → T) (step : α → E → α) (noted : α → E → Bool) (a : α) (log : List E)
    (t : T) : Prop :=
  ∃ front e back, log = front ++ e :: back ∧ time e = t ∧ noted (front.foldl step a) e = true

/-- The last sample at or before `t`. -/
def lastSample [LinearOrder T] (samples : List (T × β)) (t : T) : Option (T × β) :=
  (samples.filter fun p ↦ p.1 ≤ t).getLast?

/-! ## What is noted -/

section Noted

variable {time : E → T} {step : α → E → α} {noted : α → E → Bool} {a : α} {t : T}

theorem notedAt_nil : ¬NotedAt time step noted a [] t := by
  rintro ⟨front, e, back, h, -⟩
  exact absurd h.symm (List.append_ne_nil_of_right_ne_nil _ (List.cons_ne_nil _ _))

theorem notedAt_append {log log' : List E} :
    NotedAt time step noted a (log ++ log') t ↔
      NotedAt time step noted a log t ∨ NotedAt time step noted (log.foldl step a) log' t := by
  constructor
  · rintro ⟨front, e, back, h, htime, hnoted⟩
    rcases List.append_eq_append_iff.mp h with ⟨more, rfl, rfl⟩ | ⟨more, rfl, hmore⟩
    · rw [List.foldl_append] at hnoted
      exact Or.inr ⟨more, e, back, rfl, htime, hnoted⟩
    · cases more with
      | nil =>
          rw [List.append_nil]
          exact Or.inr ⟨[], e, back, hmore.symm, htime, hnoted⟩
      | cons e' more =>
          rw [List.cons_append, List.cons.injEq] at hmore
          obtain ⟨rfl, rfl⟩ := hmore
          exact Or.inl ⟨front, e, more, rfl, htime, hnoted⟩
  · rintro (⟨front, e, back, rfl, htime, hnoted⟩ | ⟨front, e, back, rfl, htime, hnoted⟩)
    · exact ⟨front, e, back ++ log', by rw [List.append_assoc, List.cons_append], htime, hnoted⟩
    · refine ⟨log ++ front, e, back, (List.append_assoc _ _ _).symm, htime, ?_⟩
      rw [List.foldl_append]
      exact hnoted

theorem NotedAt.exists_mem {log : List E} (h : NotedAt time step noted a log t) :
    ∃ e ∈ log, time e = t := by
  obtain ⟨front, e, back, rfl, htime, -⟩ := h
  exact ⟨e, List.mem_append_right front List.mem_cons_self, htime⟩

variable [LinearOrder T]

variable (time step noted) in
/-- An instant is settled when the entries at it are taken in. -/
theorem exists_settle (t : T) (changed : Bool) (a : α) (log : List E) :
    ∃ now later, log = now ++ later ∧ (∀ e ∈ now, time e = t) ∧
      (∀ e ∈ later.head?, time e ≠ t) ∧
      (settle time step noted t changed a log).2 = (now.foldl step a, later) ∧
      ((settle time step noted t changed a log).1 = true ↔
        changed = true ∨ NotedAt time step noted a now t) := by
  induction log generalizing changed a with
  | nil =>
      refine ⟨[], [], rfl, fun _ h ↦ absurd h List.not_mem_nil, ?_, rfl, ?_⟩
      · intro e he
        cases he
      · exact (or_iff_left notedAt_nil).symm
  | cons e rest ih =>
      rw [settle]
      split
      · rename_i he
        obtain ⟨now, later, rfl, hnow, hlater, hstate, hchanged⟩ :=
          ih (changed || noted a e) (step a e)
        refine ⟨e :: now, later, rfl, List.forall_mem_cons.mpr ⟨he, hnow⟩, hlater, hstate, ?_⟩
        have hfirst : NotedAt time step noted a [e] t ↔ noted a e = true := by
          constructor
          · rintro ⟨front, e', back, heq, -, hnoted⟩
            cases front with
            | nil =>
                obtain ⟨rfl, -⟩ := List.cons.inj heq
                exact hnoted
            | cons e'' front =>
                exact absurd (List.cons.inj heq).2.symm
                  (List.append_ne_nil_of_right_ne_nil _ (List.cons_ne_nil _ _))
          · exact fun hnoted ↦ ⟨[], e, [], rfl, he, hnoted⟩
        rw [hchanged, Bool.or_eq_true, or_assoc, ← hfirst]
        exact or_congr_right notedAt_append.symm
      · rename_i he
        refine ⟨[], e :: rest, rfl, fun _ h ↦ absurd h List.not_mem_nil, ?_, rfl, ?_⟩
        · intro e' he'
          rw [List.head?_cons, Option.mem_some_iff] at he'
          exact he' ▸ he
        · exact (or_iff_left notedAt_nil).symm

variable (step noted) in
/-- Over an ordered log, the first instant is settled before anything later is seen. -/
theorem exists_settle_head {e : E} {rest : List E}
    (hsorted : (e :: rest).Pairwise fun a b ↦ time a ≤ time b) (a : α) :
    ∃ now later, e :: rest = now ++ later ∧ (∀ e' ∈ now, time e' = time e) ∧
      (∀ e' ∈ later, time e < time e') ∧
      (settle time step noted (time e) false a (e :: rest)).2 = (now.foldl step a, later) ∧
      ((settle time step noted (time e) false a (e :: rest)).1 = true ↔
        NotedAt time step noted a now (time e)) := by
  obtain ⟨now, later, heq, hnow, hhead, hstate, hchanged⟩ :=
    exists_settle time step noted (time e) false a (e :: rest)
  refine ⟨now, later, heq, hnow, ?_, hstate, hchanged.trans (or_iff_right Bool.false_ne_true)⟩
  cases later with
  | nil => exact fun _ h ↦ absurd h List.not_mem_nil
  | cons e' later =>
      have hfirst : ∀ e'' ∈ e :: rest, time e ≤ time e'' :=
        List.forall_mem_cons.mpr ⟨le_rfl, fun _ ↦ List.rel_of_pairwise_cons hsorted⟩
      rw [heq] at hsorted hfirst
      have hlt : time e < time e' := lt_of_le_of_ne
        (hfirst e' (List.mem_append_right now List.mem_cons_self)) (hhead e' rfl).symm
      refine List.forall_mem_cons.mpr ⟨hlt, fun e'' he'' ↦ ?_⟩
      exact hlt.trans_le
        (List.rel_of_pairwise_cons (List.pairwise_append.mp hsorted).2.1 he'')

end Noted

/-! ## What is sampled -/

section Sampled

variable [LinearOrder T] {time : E → T} {step : α → E → α} {noted : α → E → Bool} {out : α → β}
  {live : α → Bool} {start stop t : T} {a : α} {b : β} {log : List E}

/-- Entries that come first, and not too late, are in the state. -/
theorem stateAt_append {now later : List E} (hnow : ∀ e ∈ now, time e ≤ t) :
    stateAt time step a (now ++ later) t = stateAt time step (now.foldl step a) later t := by
  have hall : (now.filter fun e ↦ time e ≤ t) = now :=
    List.filter_eq_self.mpr fun e he ↦ decide_eq_true (hnow e he)
  rw [stateAt, stateAt, List.filter_append, List.foldl_append, hall]

theorem stateAt_of_late {later : List E} (hlater : ∀ e ∈ later, t < time e) :
    stateAt time step a later t = a := by
  have hnone : (later.filter fun e ↦ time e ≤ t) = [] :=
    List.filter_eq_nil_iff.mpr fun e he ↦ by simpa using hlater e he
  rw [stateAt, hnone, List.foldl_nil]

variable (time step noted out) in
/-- What holds of no samples, and goes from the samples after an instant to those from the
instant on, holds of all samples over an ordered log. -/
theorem sampleChanges_induction {P : α → List E → List (T × β) → Prop}
    (hend : ∀ a log, (∀ e ∈ log, stop < time e) → P a log [])
    (hchange : ∀ a now later t samples, t ≤ stop → (∀ e ∈ now, time e = t) →
      (∀ e ∈ later, t < time e) → NotedAt time step noted a now t →
      P (now.foldl step a) later samples →
      P a (now ++ later) ((t, out (now.foldl step a)) :: samples))
    (hquiet : ∀ a now later t samples, (∀ e ∈ now, time e = t) →
      (∀ e ∈ later, t < time e) → ¬NotedAt time step noted a now t →
      P (now.foldl step a) later samples → P a (now ++ later) samples)
    (hsorted : log.Pairwise fun a b ↦ time a ≤ time b) :
    P a log (sampleChanges time step noted out stop a log) := by
  induction hn : log.length using Nat.strong_induction_on generalizing a log with
  | _ n ih =>
      cases log with
      | nil =>
          rw [sampleChanges]
          exact hend a [] fun _ h ↦ absurd h List.not_mem_nil
      | cons e rest =>
          rw [sampleChanges]
          split
          · rename_i hstop
            refine hend a _ (List.forall_mem_cons.mpr ⟨hstop, fun e' he' ↦ ?_⟩)
            exact hstop.trans_le (List.rel_of_pairwise_cons hsorted he')
          · rename_i hstop
            obtain ⟨now, later, heq, hnow, hlater, hstate, hchanged⟩ :=
              exists_settle_head step noted hsorted a
            rw [heq] at hn hsorted
            -- the first entry is among those taken in, so fewer are left
            have hfirst : now ≠ [] := by
              rintro rfl
              rw [List.nil_append] at heq
              exact lt_irrefl (time e) (hlater e (heq ▸ List.mem_cons_self))
            have hshort : later.length < n := by
              rw [← hn, List.length_append]
              exact Nat.lt_add_of_pos_left (List.length_pos_iff.mpr hfirst)
            have hrest := ih later.length hshort (a := now.foldl step a)
              (List.pairwise_append.mp hsorted).2.1 rfl
            simp only [hstate]
            rw [heq] at hchanged ⊢
            split
            · rename_i hc
              exact hchange a now later _ _ (not_lt.mp hstop) hnow hlater (hchanged.mp hc) hrest
            · rename_i hc
              exact hquiet a now later _ _ hnow hlater (fun h ↦ hc (hchanged.mpr h)) hrest

/-- An instant and what comes after it. -/
theorem notedAt_instant {now later : List E} (hnow : ∀ e ∈ now, time e = start)
    (hlater : ∀ e ∈ later, start < time e) :
    NotedAt time step noted a (now ++ later) t ↔
      t = start ∧ NotedAt time step noted a now start ∨
        start < t ∧ NotedAt time step noted (now.foldl step a) later t := by
  rw [notedAt_append]
  constructor
  · rintro (h | h)
    · obtain ⟨e, he, rfl⟩ := h.exists_mem
      rw [hnow e he] at h ⊢
      exact Or.inl ⟨rfl, h⟩
    · obtain ⟨e, he, rfl⟩ := h.exists_mem
      exact Or.inr ⟨hlater e he, h⟩
  · rintro (⟨rfl, h⟩ | ⟨-, h⟩)
    · exact Or.inl h
    · exact Or.inr h

/-- A sample is taken where an entry is noted, and shows what is left there. -/
theorem mem_sampleChanges (hsorted : log.Pairwise fun a b ↦ time a ≤ time b) :
    (t, b) ∈ sampleChanges time step noted out stop a log ↔
      t ≤ stop ∧ NotedAt time step noted a log t ∧ b = out (stateAt time step a log t) := by
  refine sampleChanges_induction time step noted out (P := fun a log samples ↦ (t, b) ∈ samples ↔
    t ≤ stop ∧ NotedAt time step noted a log t ∧ b = out (stateAt time step a log t))
    ?_ ?_ ?_ hsorted
  · intro a log hlate
    refine iff_of_false List.not_mem_nil ?_
    rintro ⟨ht, hn, -⟩
    obtain ⟨e, he, rfl⟩ := hn.exists_mem
    exact absurd ht (not_le.mpr (hlate e he))
  · intro a now later now' samples hstop hnow hlater hn ih
    have hearly : ∀ {t}, now' ≤ t → ∀ e ∈ now, time e ≤ t := fun h e he ↦ (hnow e he).trans_le h
    rw [List.mem_cons, ih, notedAt_instant hnow hlater]
    constructor
    · rintro (h | ⟨ht, hm, rfl⟩)
      · obtain ⟨rfl, rfl⟩ := Prod.mk.inj h
        refine ⟨hstop, Or.inl ⟨rfl, hn⟩, ?_⟩
        rw [stateAt_append (hearly le_rfl), stateAt_of_late hlater]
      · obtain ⟨e, he, rfl⟩ := hm.exists_mem
        refine ⟨ht, Or.inr ⟨hlater e he, hm⟩, ?_⟩
        rw [stateAt_append (hearly (hlater e he).le)]
    · rintro ⟨ht, ⟨rfl, -⟩ | ⟨hlt, hm⟩, rfl⟩
      · left
        rw [stateAt_append (hearly le_rfl), stateAt_of_late hlater]
      · refine Or.inr ⟨ht, hm, ?_⟩
        rw [stateAt_append (hearly hlt.le)]
  · intro a now later now' samples hnow hlater hn ih
    have hearly : ∀ {t}, now' ≤ t → ∀ e ∈ now, time e ≤ t := fun h e he ↦ (hnow e he).trans_le h
    rw [ih, notedAt_instant hnow hlater]
    constructor
    · rintro ⟨ht, hm, rfl⟩
      obtain ⟨e, he, rfl⟩ := hm.exists_mem
      refine ⟨ht, Or.inr ⟨hlater e he, hm⟩, ?_⟩
      rw [stateAt_append (hearly (hlater e he).le)]
    · rintro ⟨ht, ⟨rfl, hm⟩ | ⟨hlt, hm⟩, rfl⟩
      · exact absurd hm hn
      · refine ⟨ht, hm, ?_⟩
        rw [stateAt_append (hearly hlt.le)]

/-- The samples are in order, one for an instant. -/
theorem sorted_sampleChanges (hsorted : log.Pairwise fun a b ↦ time a ≤ time b) :
    (sampleChanges time step noted out stop a log).Pairwise fun p q ↦ p.1 < q.1 := by
  refine (sampleChanges_induction time step noted out (P := fun _ log samples ↦
    samples.Pairwise (fun p q ↦ p.1 < q.1) ∧ ∀ p ∈ samples, ∃ e ∈ log, time e = p.1)
    ?_ ?_ ?_ hsorted).1
  · exact fun _ _ _ ↦ ⟨List.Pairwise.nil, fun _ h ↦ absurd h List.not_mem_nil⟩
  · rintro a now later t samples - hnow hlater hn ⟨hsamples, htimes⟩
    have hlate : ∀ p ∈ samples, t < p.1 := by
      intro p hp
      obtain ⟨e, he, htime⟩ := htimes p hp
      exact htime ▸ hlater e he
    refine ⟨List.pairwise_cons.mpr ⟨hlate, hsamples⟩, List.forall_mem_cons.mpr ⟨?_, ?_⟩⟩
    · obtain ⟨e, he, htime⟩ := hn.exists_mem
      exact ⟨e, List.mem_append_left _ he, htime⟩
    · intro p hp
      obtain ⟨e, he, htime⟩ := htimes p hp
      exact ⟨e, List.mem_append_right _ he, htime⟩
  · rintro a now later t samples - - - ⟨hsamples, htimes⟩
    refine ⟨hsamples, fun p hp ↦ ?_⟩
    obtain ⟨e, he, htime⟩ := htimes p hp
    exact ⟨e, List.mem_append_right _ he, htime⟩

/-! ### With the entries before the window -/

variable (step) in
/-- An ordered log is cut at `t`. -/
theorem exists_cut (hsorted : log.Pairwise fun a b ↦ time a ≤ time b) (t : T) :
    ∃ early late, log = early ++ late ∧ (∀ e ∈ early, time e ≤ t) ∧ (∀ e ∈ late, t < time e) ∧
      ∀ a, drain time step t a log = (early.foldl step a, late) := by
  obtain ⟨htake, hdrop⟩ := takeWhile_eq_filter hsorted t
  refine ⟨log.filter fun e ↦ time e ≤ t, log.filter fun e ↦ t < time e, ?_, ?_, ?_,
    drain_eq_filter hsorted t⟩
  · rw [← htake, ← hdrop, List.takeWhile_append_dropWhile]
  · exact fun e he ↦ of_decide_eq_true (List.mem_filter.mp he).2
  · exact fun e he ↦ of_decide_eq_true (List.mem_filter.mp he).2

/-- A sample is taken at the start of the window, if there is something to show there, and
later where an entry is noted. -/
theorem mem_sampled (hsorted : log.Pairwise fun a b ↦ time a ≤ time b) :
    (t, b) ∈ sampled time step noted out live start stop a log ↔
      t ≤ stop ∧ (t = start ∧ live (stateAt time step a log start) = true ∨
        start < t ∧ NotedAt time step noted a log t) ∧ b = out (stateAt time step a log t) := by
  obtain ⟨early, late, rfl, hearly, hlate, hdrain⟩ := exists_cut step hsorted start
  have hat : stateAt time step a (early ++ late) start = early.foldl step a := by
    rw [stateAt_append hearly, stateAt_of_late hlate]
  have hnoted : start < t → (NotedAt time step noted a (early ++ late) t ↔
      NotedAt time step noted (early.foldl step a) late t) := by
    intro hlt
    rw [notedAt_append, or_iff_right]
    intro h
    obtain ⟨e, he, rfl⟩ := h.exists_mem
    exact absurd hlt (not_lt.mpr (hearly e he))
  have hstate : start < t → stateAt time step a (early ++ late) t =
      stateAt time step (early.foldl step a) late t :=
    fun hlt ↦ stateAt_append fun e he ↦ (hearly e he).trans hlt.le
  rw [sampled, hdrain, hat, List.mem_append,
    mem_sampleChanges (List.pairwise_append.mp hsorted).2.1]
  constructor
  · rintro (h | ⟨ht, hn, rfl⟩)
    · split at h
      · rename_i hlive
        obtain ⟨rfl, rfl⟩ := Prod.mk.inj (List.mem_singleton.mp h)
        exact ⟨hlive.1, Or.inl ⟨rfl, hlive.2⟩, congrArg out hat.symm⟩
      · cases h
    · obtain ⟨e, he, htime⟩ := hn.exists_mem
      have hlt : start < t := htime ▸ hlate e he
      exact ⟨ht, Or.inr ⟨hlt, (hnoted hlt).mpr hn⟩, congrArg out (hstate hlt).symm⟩
  · rintro ⟨ht, ⟨rfl, hlive⟩ | ⟨hlt, hn⟩, rfl⟩
    · left
      rw [if_pos ⟨ht, hlive⟩, hat]
      exact List.mem_singleton_self _
    · exact Or.inr ⟨ht, (hnoted hlt).mp hn, congrArg out (hstate hlt)⟩

theorem sorted_sampled (hsorted : log.Pairwise fun a b ↦ time a ≤ time b) :
    (sampled time step noted out live start stop a log).Pairwise fun p q ↦ p.1 < q.1 := by
  obtain ⟨early, late, rfl, -, hlate, hdrain⟩ := exists_cut step hsorted start
  have hsorted' := (List.pairwise_append.mp hsorted).2.1
  rw [sampled, hdrain]
  refine List.pairwise_append.mpr ⟨?_, sorted_sampleChanges hsorted', ?_⟩
  · split
    · exact List.pairwise_singleton _ _
    · exact List.Pairwise.nil
  · intro p hp q hq
    split at hp
    · obtain rfl := List.mem_singleton.mp hp
      obtain ⟨e, he, htime⟩ := ((mem_sampleChanges hsorted').mp hq).2.1.exists_mem
      exact htime ▸ hlate e he
    · cases hp

end Sampled

/-! ## What a reader is told -/

section Reader

variable [LinearOrder T] {samples : List (T × β)} {t t' : T}

theorem lastSample_of_mem (hsorted : samples.Pairwise fun p q ↦ p.1 < q.1) {p : T × β}
    (hp : p ∈ samples) : lastSample samples p.1 = some p := by
  obtain ⟨front, back, rfl⟩ := List.append_of_mem hp
  obtain ⟨-, hback, hfront⟩ := List.pairwise_append.mp hsorted
  have hlate : (back.filter fun q ↦ q.1 ≤ p.1) = [] :=
    List.filter_eq_nil_iff.mpr fun q hq ↦ by simpa using List.rel_of_pairwise_cons hback hq
  rw [lastSample, List.filter_append, List.filter_cons, if_pos (decide_eq_true le_rfl), hlate,
    List.getLast?_concat]

/-- Where no sample is taken, the reader is told what it was told before. -/
theorem lastSample_eq (hle : t ≤ t') (h : ∀ p ∈ samples, p.1 ≤ t' → p.1 ≤ t) :
    lastSample samples t' = lastSample samples t := by
  rw [lastSample, lastSample]
  congr 1
  refine List.filter_congr fun p hp ↦ ?_
  rw [Bool.eq_iff_iff, decide_eq_true_iff, decide_eq_true_iff]
  exact ⟨h p hp, fun hp ↦ hp.trans hle⟩

theorem mem_of_lastSample {p : T × β} (h : lastSample samples t = some p) :
    p ∈ samples ∧ p.1 ≤ t := by
  have hp := List.mem_filter.mp (List.mem_of_getLast? h)
  exact ⟨hp.1, of_decide_eq_true hp.2⟩

theorem exists_lastSample {p : T × β} (hp : p ∈ samples) (hle : p.1 ≤ t) :
    ∃ q, lastSample samples t = some q := by
  rw [← Option.isSome_iff_exists, lastSample, List.getLast?_isSome]
  exact List.ne_nil_of_mem (List.mem_filter.mpr ⟨hp, decide_eq_true hle⟩)

end Reader

/-! ## When it is the truth -/

section Truth

variable {time : E → T} {step : α → E → α} {noted : α → E → Bool} {out : α → β}
  {live : α → Bool} {same : β → β → Prop} {start stop t : T} {a : α} {log : List E}

/-- A state with something to show is told of, and what is told is right. -/
structure Tells (same : β → β → Prop) (out : α → β) (live : α → Bool) (sample : Option (T × β))
    (a : α) : Prop where
  told : live a = true → ∃ p, sample = some p
  right : ∀ p, sample = some p → same p.2 (out a)

/-- Where nothing is told there is nothing to show. -/
theorem Tells.not_live (h : Tells same out live (none : Option (T × β)) a) : live a = false := by
  rw [Bool.eq_false_iff]
  intro hlive
  obtain ⟨p, hp⟩ := h.told hlive
  cases hp

variable [LinearOrder T]

variable (time step a log) in
/-- The last instant before `t` at which anything happens in the window. -/
theorem exists_before (hlt : start < t) :
    ∃ u, start ≤ u ∧ u < t ∧ (∀ e ∈ log, time e < t → time e ≤ u) ∧
      stateBefore time step a log t = stateAt time step a log u := by
  have hlast : ∃ u, start ≤ u ∧ u < t ∧ ∀ e ∈ log, time e < t → time e ≤ u := by
    induction log with
    | nil => exact ⟨start, le_rfl, hlt, fun _ h ↦ absurd h List.not_mem_nil⟩
    | cons e rest ih =>
        obtain ⟨u, hstart, hu, hrest⟩ := ih
        by_cases he : time e < t
        · refine ⟨max u (time e), hstart.trans (le_max_left _ _), max_lt hu he,
            List.forall_mem_cons.mpr ⟨fun _ ↦ le_max_right _ _, fun e' he' hlt' ↦ ?_⟩⟩
          exact (hrest e' he' hlt').trans (le_max_left _ _)
        · exact ⟨u, hstart, hu, List.forall_mem_cons.mpr ⟨fun h ↦ absurd h he, hrest⟩⟩
  obtain ⟨u, hstart, hu, hlast⟩ := hlast
  refine ⟨u, hstart, hu, hlast, ?_⟩
  rw [stateBefore, stateAt]
  congr 1
  refine List.filter_congr fun e he ↦ ?_
  rw [Bool.eq_iff_iff, decide_eq_true_iff, decide_eq_true_iff]
  exact ⟨hlast e he, fun h ↦ h.trans_lt hu⟩

/-- At an instant that passes unnoted the reader is told what it was told before. -/
theorem lastSample_of_unnoted (hsorted : log.Pairwise fun a b ↦ time a ≤ time b)
    (hn : ¬NotedAt time step noted a log t) {u : T} (hstart : start ≤ u) (hu : u < t)
    (hlast : ∀ e ∈ log, time e < t → time e ≤ u) :
    lastSample (sampled time step noted out live start stop a log) t =
      lastSample (sampled time step noted out live start stop a log) u := by
  refine lastSample_eq hu.le fun p hp hle ↦ ?_
  obtain ⟨-, ⟨hbegin, -⟩ | ⟨-, hnoted⟩, -⟩ := (mem_sampled hsorted).mp hp
  · exact hbegin.le.trans hstart
  · obtain ⟨e, he, htime⟩ := hnoted.exists_mem
    have hne : p.1 ≠ t := fun heq ↦ hn (heq ▸ hnoted)
    rw [← htime] at hle hne ⊢
    exact hlast e he (lt_of_le_of_ne hle hne)

/-- The truth is told where a sample is taken. -/
theorem tells_of_sampled (hsorted : log.Pairwise fun a b ↦ time a ≤ time b)
    (hsame : Equivalence same) (hstop : t ≤ stop)
    (hs : t = start ∧ live (stateAt time step a log start) = true ∨
      start < t ∧ NotedAt time step noted a log t) :
    Tells same out live (lastSample (sampled time step noted out live start stop a log) t)
      (stateAt time step a log t) := by
  have hmem : (t, out (stateAt time step a log t)) ∈
      sampled time step noted out live start stop a log :=
    (mem_sampled hsorted).mpr ⟨hstop, hs, rfl⟩
  have hlast := lastSample_of_mem (sorted_sampled hsorted) hmem
  refine ⟨fun _ ↦ ⟨_, hlast⟩, fun p hp ↦ ?_⟩
  obtain rfl := Option.some_inj.mp (hlast.symm.trans hp)
  exact hsame.refl _

/-- It is told at the start of the window. -/
theorem tells_start (hsorted : log.Pairwise fun a b ↦ time a ≤ time b)
    (hsame : Equivalence same) (hstop : start ≤ stop) :
    Tells same out live (lastSample (sampled time step noted out live start stop a log) start)
      (stateAt time step a log start) := by
  by_cases hlive : live (stateAt time step a log start) = true
  · exact tells_of_sampled hsorted hsame hstop (Or.inl ⟨rfl, hlive⟩)
  · -- there is nothing to show, and no sample so far
    refine ⟨fun h ↦ absurd h hlive, fun p hp ↦ ?_⟩
    obtain ⟨hp, hle⟩ := mem_of_lastSample hp
    obtain ⟨-, ⟨-, h⟩ | ⟨hlt, -⟩, -⟩ := (mem_sampled hsorted).mp hp
    · exact absurd h hlive
    · exact absurd hle (not_le.mpr hlt)

/-- A sample was taken at the start, or where something was noted. -/
theorem of_lastSample_sampled (hsorted : log.Pairwise fun a b ↦ time a ≤ time b) {p : T × β}
    (h : lastSample (sampled time step noted out live start stop a log) t = some p) :
    live (stateAt time step a log start) = true ∨
      ∃ u, start < u ∧ u ≤ t ∧ NotedAt time step noted a log u := by
  obtain ⟨hp, hle⟩ := mem_of_lastSample h
  obtain ⟨-, ⟨-, hlive⟩ | ⟨hlt, hnoted⟩, -⟩ := (mem_sampled hsorted).mp hp
  · exact Or.inl hlive
  · exact Or.inr ⟨p.1, hlt, hle, hnoted⟩

/-- At every instant of the window the last sample tells the truth, if and only if the instants
that pass unnoted leave what is shown as it was, and bring up something to show only where
there was something before, or a sample. -/
theorem sampled_tells_iff [WellFoundedLT T] (hsorted : log.Pairwise fun a b ↦ time a ≤ time b)
    (hsame : Equivalence same)
    (hdead : ∀ a a', live a = false → live a' = false → same (out a) (out a')) :
    (∀ t, start ≤ t → t ≤ stop → Tells same out live
      (lastSample (sampled time step noted out live start stop a log) t)
      (stateAt time step a log t)) ↔
    ∀ t, start < t → t ≤ stop → ¬NotedAt time step noted a log t →
      same (out (stateBefore time step a log t)) (out (stateAt time step a log t)) ∧
      (live (stateAt time step a log t) = true → live (stateBefore time step a log t) = true ∨
        live (stateAt time step a log start) = true ∨
        ∃ u, start < u ∧ u < t ∧ NotedAt time step noted a log u) := by
  constructor
  · intro h t hlt hstop hn
    obtain ⟨u, hstart, hu, hlast, hstate⟩ := exists_before time step a log hlt
    have hthen := h u hstart (hu.le.trans hstop)
    have hnow := h t hlt.le hstop
    rw [lastSample_of_unnoted hsorted hn hstart hu hlast] at hnow
    rw [hstate]
    cases hsample : lastSample (sampled time step noted out live start stop a log) u with
    | none =>
        rw [hsample] at hthen hnow
        refine ⟨hdead _ _ hthen.not_live hnow.not_live, fun hlive ↦ ?_⟩
        exact absurd (hnow.not_live.symm.trans hlive) Bool.false_ne_true
    | some p =>
        refine ⟨hsame.trans (hsame.symm (hthen.right p hsample)) (hnow.right p hsample), ?_⟩
        intro _
        rcases of_lastSample_sampled hsorted hsample with hlive | ⟨u', hu', hle, hnoted⟩
        · exact Or.inr (Or.inl hlive)
        · exact Or.inr (Or.inr ⟨u', hu', hle.trans_lt hu, hnoted⟩)
  · intro h t
    induction t using WellFoundedLT.induction with
    | _ t ih =>
        intro hle hstop
        rcases hle.eq_or_lt with rfl | hlt
        · exact tells_start hsorted hsame hstop
        by_cases hn : NotedAt time step noted a log t
        · exact tells_of_sampled hsorted hsame hstop (Or.inr ⟨hlt, hn⟩)
        -- the sample is that of the instant before
        obtain ⟨u, hstart, hu, hlast, hstate⟩ := exists_before time step a log hlt
        have hthen := ih u hu hstart (hu.le.trans hstop)
        obtain ⟨hshown, hknown⟩ := h t hlt hstop hn
        constructor
        · intro hlive
          rcases hknown hlive with hlive | hlive | ⟨u', hu', hlt', hnoted⟩
          · rw [lastSample_of_unnoted hsorted hn hstart hu hlast]
            exact hthen.told (hstate ▸ hlive)
          · exact exists_lastSample ((mem_sampled hsorted).mpr
              ⟨hle.trans hstop, Or.inl ⟨rfl, hlive⟩, rfl⟩) hle
          · exact exists_lastSample ((mem_sampled hsorted).mpr
              ⟨hlt'.le.trans hstop, Or.inr ⟨hu', hnoted⟩, rfl⟩) hlt'.le
        · intro p hp
          rw [lastSample_of_unnoted hsorted hn hstart hu hlast] at hp
          exact hsame.trans (hthen.right p hp) (hstate ▸ hshown)

/-- An ordered log before, at and after an instant. -/
theorem exists_instant (hsorted : log.Pairwise fun a b ↦ time a ≤ time b) (t : T) :
    ∃ before now later, log = before ++ now ++ later ∧ (∀ e ∈ before, time e < t) ∧
      (∀ e ∈ now, time e = t) ∧ ∀ e ∈ later, t < time e := by
  induction log with
  | nil =>
      exact ⟨[], [], [], rfl, fun _ h ↦ absurd h List.not_mem_nil,
        fun _ h ↦ absurd h List.not_mem_nil, fun _ h ↦ absurd h List.not_mem_nil⟩
  | cons e rest ih =>
      obtain ⟨before, now, later, rfl, hbefore, hnow, hlater⟩ := ih hsorted.of_cons
      have hfirst : ∀ e' ∈ before ++ now ++ later, time e ≤ time e' :=
        fun _ ↦ List.rel_of_pairwise_cons hsorted
      rcases lt_trichotomy (time e) t with hlt | heq | hgt
      · exact ⟨e :: before, now, later, rfl, List.forall_mem_cons.mpr ⟨hlt, hbefore⟩, hnow, hlater⟩
      · have hnone : before = [] := by
          refine List.eq_nil_iff_forall_not_mem.mpr fun e' he' ↦ ?_
          refine absurd (hbefore e' he') (not_lt.mpr (heq ▸ hfirst e' ?_))
          exact List.mem_append_left _ (List.mem_append_left _ he')
        rw [hnone]
        exact ⟨[], e :: now, later, rfl, fun _ h ↦ absurd h List.not_mem_nil,
          List.forall_mem_cons.mpr ⟨heq, hnow⟩, hlater⟩
      · exact ⟨[], [], e :: (before ++ now ++ later), rfl, fun _ h ↦ absurd h List.not_mem_nil,
          fun _ h ↦ absurd h List.not_mem_nil,
          List.forall_mem_cons.mpr ⟨hgt, fun e' he' ↦ hgt.trans_le (hfirst e' he')⟩⟩

variable (step a) in
/-- The states before and at an instant. -/
theorem state_instant {before now later : List E} (hbefore : ∀ e ∈ before, time e < t)
    (hnow : ∀ e ∈ now, time e = t) (hlater : ∀ e ∈ later, t < time e) :
    stateBefore time step a (before ++ now ++ later) t = before.foldl step a ∧
      stateAt time step a (before ++ now ++ later) t = (before ++ now).foldl step a := by
  constructor
  · have hall : (before.filter fun e ↦ time e < t) = before :=
      List.filter_eq_self.mpr fun e he ↦ decide_eq_true (hbefore e he)
    have hnone : ((now ++ later).filter fun e ↦ time e < t) = [] := by
      refine List.filter_eq_nil_iff.mpr fun e he ↦ ?_
      rcases List.mem_append.mp he with he | he
      · simpa using (hnow e he).ge
      · simpa using (hlater e he).le
    rw [stateBefore, List.append_assoc, List.filter_append, hall, hnone, List.append_nil]
  · have hearly : ∀ e ∈ before ++ now, time e ≤ t := by
      intro e he
      rcases List.mem_append.mp he with he | he
      · exact (hbefore e he).le
      · exact (hnow e he).le
    rw [stateAt_append hearly, stateAt_of_late hlater]

/-- What the entries that are not noted keep is kept at an instant that passes unnoted. -/
theorem kept_of_unnoted {R : α → α → Prop} (hrefl : ∀ a, R a a)
    (htrans : ∀ a b c, R a b → R b c → R a c)
    (hsorted : log.Pairwise fun a b ↦ time a ≤ time b)
    (hstep : ∀ front e back, log = front ++ e :: back → time e = t →
      noted (front.foldl step a) e = false → R (front.foldl step a) (step (front.foldl step a) e))
    (hn : ¬NotedAt time step noted a log t) :
    R (stateBefore time step a log t) (stateAt time step a log t) := by
  obtain ⟨before, now, later, rfl, hbefore, hnow, hlater⟩ := exists_instant hsorted t
  obtain ⟨hthen, hat⟩ := state_instant step a hbefore hnow hlater
  rw [hthen, hat]
  -- the entries at `t` one by one; `later` grows by those that are still to come
  clear hthen hat hlater hsorted
  induction now using List.reverseRecOn generalizing later with
  | nil =>
      rw [List.append_nil]
      exact hrefl _
  | append_singleton now e ih =>
      have hlog : before ++ (now ++ [e]) ++ later = before ++ now ++ e :: later := by
        rw [← List.append_assoc, List.append_assoc, List.singleton_append]
      rw [hlog] at hn hstep
      have he : time e = t := hnow e (List.mem_append_right _ List.mem_cons_self)
      have hquiet : noted ((before ++ now).foldl step a) e = false := by
        rw [Bool.eq_false_iff]
        exact fun hnoted ↦ hn ⟨before ++ now, e, later, rfl, he, hnoted⟩
      have hkept := ih (e :: later) hstep hn fun e' he' ↦ hnow e' (List.mem_append_left _ he')
      rw [← List.append_assoc, List.foldl_concat]
      exact htrans _ _ _ hkept (hstep _ e later rfl he hquiet)

end Truth

end Koalisi.Lib
