import Mathlib.Data.List.Basic
import Koalisi.Lib.Fallible

/-!
# Writing a transcript, and reading it back

One program asks questions and writes down each answer; another one, written on its own,
reads such a transcript instead of asking.  Three relations between the two, each with the
rules to go through a program piece by piece:

* what the writer has written, the reader reads, with a related result (`Readable`);
* what the reader reads, a writer that is given the same answers writes (`Follows`);
* two transcripts that the reader reads are one, as far as their answers are (`Settled`).
-/

namespace Koalisi.Lib.Transcript

open Koalisi.Lib.Fallible

variable {ε ε' σ τ ι α α' β β' γ : Type}

/-! ## Reading what was written -/

/-- Whenever the writer succeeds, the reader reads what it has written and nothing else. -/
def Readable (written : σ → List ι) (R : α → β → Prop) (x : EStateM ε σ α)
    (y : EStateM ε' (List ι) β) : Prop :=
  ∀ s a s', x s = .ok a s' → ∃ new b, written s' = written s ++ new ∧ R a b ∧
    ∀ rest, y (new ++ rest) = .ok b rest

section Readable

variable {written : σ → List ι} {R : α → β → Prop} {R' : α' → β' → Prop}

theorem readable_pure {a : α} {b : β} (h : R a b) :
    Readable written R (pure a : EStateM ε σ α) (pure b : EStateM ε' (List ι) β) := by
  intro s a' s' hx
  obtain ⟨rfl, rfl⟩ := pure_eq_ok.mp hx
  exact ⟨[], b, (List.append_nil _).symm, h, fun _ ↦ rfl⟩

theorem Readable.bind {x : EStateM ε σ α} {y : EStateM ε' (List ι) β}
    {f : α → EStateM ε σ α'} {g : β → EStateM ε' (List ι) β'} (hx : Readable written R x y)
    (hf : ∀ a b, R a b → Readable written R' (f a) (g b)) :
    Readable written R' (x >>= f) (y >>= g) := by
  intro s a' s' h
  obtain ⟨a, t, hxs, hft⟩ := bind_eq_ok.mp h
  obtain ⟨new, b, hwritten, hR, hread⟩ := hx s a t hxs
  obtain ⟨new', b', hwritten', hR', hread'⟩ := hf a b hR t a' s' hft
  refine ⟨new ++ new', b', ?_, hR', fun rest ↦ ?_⟩
  · rw [hwritten', hwritten, List.append_assoc]
  · refine bind_eq_ok.mpr ⟨b, new' ++ rest, ?_, hread' rest⟩
    rw [List.append_assoc]
    exact hread (new' ++ rest)

/-- A part of the writer that writes nothing. -/
theorem Readable.silent_bind {x : EStateM ε σ α} {y : EStateM ε' (List ι) β'}
    {f : α → EStateM ε σ α'} (hx : ∀ s a s', x s = .ok a s' → written s' = written s)
    (hf : ∀ s a s', x s = .ok a s' → Readable written R' (f a) y) :
    Readable written R' (x >>= f) y := by
  intro s a' s' h
  obtain ⟨a, t, hxs, hft⟩ := bind_eq_ok.mp h
  obtain ⟨new, b, hwritten, hR, hread⟩ := hf s a t hxs t a' s' hft
  exact ⟨new, b, by rw [hwritten, hx s a t hxs], hR, hread⟩

theorem Readable.foldlM {f : α → γ → EStateM ε σ α} {g : β → γ → EStateM ε' (List ι) β}
    {l : List γ} (h : ∀ c ∈ l, ∀ a b, R a b → Readable written R (f a c) (g b c)) {a : α} {b : β}
    (hab : R a b) : Readable written R (l.foldlM f a) (l.foldlM g b) := by
  induction l generalizing a b with
  | nil => exact readable_pure hab
  | cons c l ih =>
      rw [List.foldlM_cons, List.foldlM_cons]
      exact (h c List.mem_cons_self a b hab).bind fun a' b' hab' ↦
        ih (fun d hd ↦ h d (List.mem_cons_of_mem c hd)) hab'

end Readable

/-! ## Writing what can be read -/

/-- Whenever the reader succeeds from a state that fits the writer's, so does the writer, and
the states they end in fit. -/
def Follows (P : σ → τ → Prop) (R : α → β → Prop) (x : EStateM ε σ α) (y : EStateM ε' τ β) :
    Prop :=
  ∀ s t b t', P s t → y t = .ok b t' → ∃ a s', x s = .ok a s' ∧ P s' t' ∧ R a b

section Follows

variable {P : σ → τ → Prop} {R : α → β → Prop} {R' : α' → β' → Prop}

theorem follows_pure {a : α} {b : β} (h : R a b) :
    Follows P R (pure a : EStateM ε σ α) (pure b : EStateM ε' τ β) := by
  intro s t b' t' hP hy
  obtain ⟨rfl, rfl⟩ := pure_eq_ok.mp hy
  exact ⟨a, s, rfl, hP, h⟩

theorem Follows.bind {x : EStateM ε σ α} {y : EStateM ε' τ β} {f : α → EStateM ε σ α'}
    {g : β → EStateM ε' τ β'} (hx : Follows P R x y)
    (hf : ∀ a b, R a b → Follows P R' (f a) (g b)) : Follows P R' (x >>= f) (y >>= g) := by
  intro s t b' t' hP h
  obtain ⟨b, u, hyt, hgu⟩ := bind_eq_ok.mp h
  obtain ⟨a, r, hxs, hPr, hR⟩ := hx s t b u hP hyt
  obtain ⟨a', s', hfr, hP', hR'⟩ := hf a b hR r u b' t' hPr hgu
  exact ⟨a', s', bind_eq_ok.mpr ⟨a, r, hxs, hfr⟩, hP', hR'⟩

theorem Follows.imp {R' : α → β → Prop} {x : EStateM ε σ α} {y : EStateM ε' τ β}
    (hx : Follows P R x y) (h : ∀ a b, R a b → R' a b) : Follows P R' x y := by
  intro s t b t' hP hy
  obtain ⟨a, s', hxs, hP', hR⟩ := hx s t b t' hP hy
  exact ⟨a, s', hxs, hP', h a b hR⟩

/-- A part of the writer that succeeds and changes nothing that matters. -/
theorem Follows.silent_bind {x : EStateM ε σ α} {y : EStateM ε' τ β'} {f : α → EStateM ε σ α'}
    {a : α} (hx : ∀ s t, P s t → ∃ s', x s = .ok a s' ∧ P s' t) (hf : Follows P R' (f a) y) :
    Follows P R' (x >>= f) y := by
  intro s t b' t' hP h
  obtain ⟨r, hxs, hPr⟩ := hx s t hP
  obtain ⟨a', s', hfr, hP', hR'⟩ := hf r t b' t' hPr h
  exact ⟨a', s', bind_eq_ok.mpr ⟨a, r, hxs, hfr⟩, hP', hR'⟩

/-- A part of the reader that changes nothing that matters. -/
theorem Follows.bind_silent {x : EStateM ε σ α'} {y : EStateM ε' τ β} {g : β → EStateM ε' τ β'}
    (hy : ∀ s t b t', P s t → y t = .ok b t' → P s t' ∧ Follows P R' x (g b)) :
    Follows P R' x (y >>= g) := by
  intro s t b' t' hP h
  obtain ⟨b, u, hyt, hgu⟩ := bind_eq_ok.mp h
  obtain ⟨hPu, hx⟩ := hy s t b u hP hyt
  exact hx s u b' t' hPu hgu

theorem Follows.foldlM {f : α → γ → EStateM ε σ α} {g : β → γ → EStateM ε' τ β} {l : List γ}
    (h : ∀ c ∈ l, ∀ a b, R a b → Follows P R (f a c) (g b c)) {a : α} {b : β} (hab : R a b) :
    Follows P R (l.foldlM f a) (l.foldlM g b) := by
  induction l generalizing a b with
  | nil => exact follows_pure hab
  | cons c l ih =>
      rw [List.foldlM_cons, List.foldlM_cons]
      exact (h c List.mem_cons_self a b hab).bind fun a' b' hab' ↦
        ih (fun d hd ↦ h d (List.mem_cons_of_mem c hd)) hab'

/-- A loop that collects results. -/
theorem Follows.mapM {f : γ → EStateM ε σ α} {g : γ → EStateM ε' τ β} {l : List γ}
    (h : ∀ c ∈ l, Follows P R (f c) (g c)) :
    Follows P (List.Forall₂ R) (l.mapM f) (l.mapM g) := by
  induction l with
  | nil =>
      rw [List.mapM_nil, List.mapM_nil]
      exact follows_pure .nil
  | cons c l ih =>
      rw [List.mapM_cons, List.mapM_cons]
      refine (h c List.mem_cons_self).bind fun a b hab ↦ ?_
      refine (ih fun c' hc ↦ h c' (List.mem_cons_of_mem c hc)).bind fun as bs habs ↦ ?_
      exact follows_pure (.cons hab habs)

end Follows

/-! ## One transcript for the same answers -/

/-- Two transcripts agree as far as both go. -/
def Agree (answer : ι → γ) (l r : List ι) : Prop := ∀ p ∈ l.zip r, answer p.1 = answer p.2

/-- What is read of transcripts that agree is the same, with the same result. -/
def Settled (answer : ι → γ) (y : EStateM ε (List ι) β) : Prop :=
  ∀ l r b c l' r', Agree answer l r → y l = .ok b l' → y r = .ok c r' →
    b = c ∧ ∃ new, l = new ++ l' ∧ r = new ++ r'

section Settled

variable {answer : ι → γ}

/-- Agreement beyond a common beginning. -/
theorem Agree.of_append {new l r : List ι} (h : Agree answer (new ++ l) (new ++ r)) :
    Agree answer l r := by
  intro p hp
  refine h p ?_
  rw [List.zip_append rfl]
  exact List.mem_append_right _ hp

theorem settled_pure (b : β) : Settled answer (pure b : EStateM ε (List ι) β) := by
  intro l r b' c l' r' _ hl hr
  obtain ⟨rfl, rfl⟩ := pure_eq_ok.mp hl
  obtain ⟨rfl, rfl⟩ := pure_eq_ok.mp hr
  exact ⟨rfl, [], rfl, rfl⟩

theorem Settled.bind {y : EStateM ε (List ι) β} {g : β → EStateM ε (List ι) β'}
    (hy : Settled answer y) (hg : ∀ b, Settled answer (g b)) : Settled answer (y >>= g) := by
  intro l r b' c' l' r' hagree hl hr
  obtain ⟨b, m, hlm, hm⟩ := bind_eq_ok.mp hl
  obtain ⟨c, n, hrn, hn⟩ := bind_eq_ok.mp hr
  obtain ⟨rfl, new, rfl, rfl⟩ := hy l r b c m n hagree hlm hrn
  obtain ⟨heq, new', rfl, rfl⟩ := hg b m n b' c' l' r' hagree.of_append hm hn
  exact ⟨heq, new ++ new', (List.append_assoc ..).symm, (List.append_assoc ..).symm⟩

theorem Settled.foldlM {g : β → α → EStateM ε (List ι) β} (h : ∀ b a, Settled answer (g b a))
    (l : List α) (b : β) : Settled answer (l.foldlM g b) := by
  induction l generalizing b with
  | nil => exact settled_pure b
  | cons a l ih =>
      rw [List.foldlM_cons]
      exact (h b a).bind ih

end Settled

end Koalisi.Lib.Transcript
