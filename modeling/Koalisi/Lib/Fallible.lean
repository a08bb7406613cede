import Mathlib.Data.List.Forall2

/-!
# Computations that may fail and keep their state

A method on a mutable receiver that returns a result is an `EStateM`: it ends
with a value or an error, and in both cases with the state it leaves behind.
Nothing is rolled back when it fails.

`bind_eq_ok` and `bind_eq_error` are the two inversion rules of sequencing; the
rest says which computations never touch the state, or leave it alone when they
fail.
-/

namespace Koalisi.Lib.Fallible

variable {ε ε' σ τ α β : Type}

/-- Run a read-only, fallible look at the state. -/
def look (f : σ → Except ε α) : EStateM ε σ α := fun s ↦
  match f s with
  | .ok a => .ok a s
  | .error e => .error e s

/-- Change the errors of a computation. -/
def mapError (f : ε → ε') (x : EStateM ε σ α) : EStateM ε' σ α := fun s ↦
  match x s with
  | .ok a s' => .ok a s'
  | .error e s' => .error (f e) s'

/-- Run a computation on a part of the state, and put back the part it leaves. -/
def focus (part : σ → τ) (put : σ → τ → σ) (x : EStateM ε τ α) : EStateM ε σ α := fun s ↦
  match x (part s) with
  | .ok a t => .ok a (put s t)
  | .error e t => .error e (put s t)

/-- The state a computation ended with, whether it failed or not. -/
def finalState : EStateM.Result ε σ α → σ
  | .ok _ s => s
  | .error _ s => s

/-- What a computation ended with, apart from the state. -/
def outcome : EStateM.Result ε σ α → Except ε α
  | .ok a _ => .ok a
  | .error e _ => .error e

theorem bind_def (x : EStateM ε σ α) (f : α → EStateM ε σ β) (s : σ) :
    (x >>= f) s = match x s with
      | .ok a t => f a t
      | .error e t => .error e t := rfl

/-- A sequence succeeds when both stages do. -/
theorem bind_eq_ok {x : EStateM ε σ α} {f : α → EStateM ε σ β} {s s' : σ} {b : β} :
    (x >>= f) s = .ok b s' ↔ ∃ a t, x s = .ok a t ∧ f a t = .ok b s' := by
  rw [bind_def]
  cases hx : x s with
  | ok a t =>
      constructor
      · exact fun h ↦ ⟨a, t, rfl, h⟩
      · rintro ⟨a', t', h, h'⟩
        cases h
        exact h'
  | error e t =>
      constructor
      · exact fun h ↦ nomatch h
      · rintro ⟨a', t', h, h'⟩
        cases h

/-- A sequence fails in its first stage, or in its second after the first succeeded. -/
theorem bind_eq_error {x : EStateM ε σ α} {f : α → EStateM ε σ β} {s s' : σ} {e : ε} :
    (x >>= f) s = .error e s' ↔
      x s = .error e s' ∨ ∃ a t, x s = .ok a t ∧ f a t = .error e s' := by
  rw [bind_def]
  cases hx : x s with
  | ok a t =>
      constructor
      · exact fun h ↦ Or.inr ⟨a, t, rfl, h⟩
      · rintro (h | ⟨a', t', h, h'⟩)
        · cases h
        · cases h
          exact h'
  | error e' t =>
      constructor
      · intro h
        cases h
        exact Or.inl rfl
      · rintro (h | ⟨a', t', h, h'⟩)
        · cases h
          rfl
        · cases h

@[simp] theorem pure_eq_ok {a b : α} {s s' : σ} :
    (pure a : EStateM ε σ α) s = .ok b s' ↔ a = b ∧ s = s' := by
  change EStateM.Result.ok a s = EStateM.Result.ok b s' ↔ _
  rw [EStateM.Result.ok.injEq]

@[simp] theorem pure_ne_error {a : α} {e : ε} {s s' : σ} :
    (pure a : EStateM ε σ α) s ≠ .error e s' := fun h ↦ nomatch h

theorem look_eq_ok {f : σ → Except ε α} {s s' : σ} {a : α} :
    look f s = .ok a s' ↔ f s = .ok a ∧ s = s' := by
  unfold look
  cases f s <;> simp [EStateM.Result.ok.injEq]

theorem look_eq_error {f : σ → Except ε α} {s s' : σ} {e : ε} :
    look f s = .error e s' ↔ f s = .error e ∧ s = s' := by
  unfold look
  cases f s <;> simp [EStateM.Result.error.injEq]

theorem mapError_eq_ok {f : ε → ε'} {x : EStateM ε σ α} {s s' : σ} {a : α} :
    mapError f x s = .ok a s' ↔ x s = .ok a s' := by
  unfold mapError
  cases x s <;> simp

theorem mapError_eq_error {f : ε → ε'} {x : EStateM ε σ α} {s s' : σ} {e' : ε'} :
    mapError f x s = .error e' s' ↔ ∃ e, x s = .error e s' ∧ f e = e' := by
  unfold mapError
  cases hx : x s with
  | ok a t => simp
  | error e t =>
      constructor
      · intro h
        cases h
        exact ⟨e, rfl, rfl⟩
      · rintro ⟨e₀, h, rfl⟩
        cases h
        rfl

theorem focus_eq_ok {part : σ → τ} {put : σ → τ → σ} {x : EStateM ε τ α} {s s' : σ} {a : α} :
    focus part put x s = .ok a s' ↔ ∃ t, x (part s) = .ok a t ∧ put s t = s' := by
  unfold focus
  cases x (part s) <;> simp

theorem focus_eq_error {part : σ → τ} {put : σ → τ → σ} {x : EStateM ε τ α} {s s' : σ} {e : ε} :
    focus part put x s = .error e s' ↔ ∃ t, x (part s) = .error e t ∧ put s t = s' := by
  unfold focus
  cases x (part s) <;> simp

theorem finalState_focus {part : σ → τ} {put : σ → τ → σ} {x : EStateM ε τ α} {s : σ} :
    finalState (focus part put x s) = put s (finalState (x (part s))) := by
  unfold focus
  cases x (part s) <;> rfl

theorem outcome_focus {part : σ → τ} {put : σ → τ → σ} {x : EStateM ε τ α} {s : σ} :
    outcome (focus part put x s) = outcome (x (part s)) := by
  unfold focus
  cases x (part s) <;> rfl

/-! ## Failing without a trace -/

/-- The computation leaves the state alone whenever it fails. -/
def Atomic (x : EStateM ε σ α) : Prop := ∀ s e s', x s = .error e s' → s' = s

/-- The computation never changes the state. -/
def ReadOnly (x : EStateM ε σ α) : Prop := ∀ s a s', x s = .ok a s' → s' = s

theorem atomic_look (f : σ → Except ε α) : Atomic (look f) := fun _ _ _ h ↦
  (look_eq_error.mp h).2.symm

theorem readOnly_look (f : σ → Except ε α) : ReadOnly (look f) := fun _ _ _ h ↦
  (look_eq_ok.mp h).2.symm

theorem Atomic.mapError {f : ε → ε'} {x : EStateM ε σ α} (h : Atomic x) :
    Atomic (mapError f x) := fun s _ s' hx ↦
  have ⟨e, he, _⟩ := mapError_eq_error.mp hx
  h s e s' he

/-- Reading first keeps a computation atomic. -/
theorem Atomic.bind_readOnly {x : EStateM ε σ α} {f : α → EStateM ε σ β} (hx : Atomic x)
    (hr : ReadOnly x) (hf : ∀ a, Atomic (f a)) : Atomic (x >>= f) := by
  intro s e s' h
  rcases bind_eq_error.mp h with h | ⟨a, t, ha, hb⟩
  · exact hx s e s' h
  · rw [hf a t e s' hb, hr s a t ha]

/-- Steps that cannot fail after the first one succeeded keep a computation atomic. -/
theorem Atomic.bind_total {x : EStateM ε σ α} {f : α → EStateM ε σ β} (hx : Atomic x)
    (hf : ∀ s a t, x s = .ok a t → ∀ e s', f a t ≠ .error e s') : Atomic (x >>= f) := by
  intro s e s' h
  rcases bind_eq_error.mp h with h | ⟨a, t, ha, hb⟩
  · exact hx s e s' h
  · exact absurd hb (hf s a t ha e s')

/-! ## Looking only -/

/-- The computation leaves the state alone, however it ends. -/
def Still (x : EStateM ε σ α) : Prop := ∀ s, finalState (x s) = s

theorem still_look (f : σ → Except ε α) : Still (look f) := fun s ↦ by
  unfold look
  cases f s <;> rfl

theorem still_pure (a : α) : Still (pure a : EStateM ε σ α) := fun _ ↦ rfl

theorem Still.eq_of_ok {x : EStateM ε σ α} (h : Still x) {s s' : σ} {a : α}
    (hx : x s = .ok a s') : s' = s := by
  have hs := h s
  rw [hx] at hs
  exact hs

theorem Still.eq_of_error {x : EStateM ε σ α} (h : Still x) {s s' : σ} {e : ε}
    (hx : x s = .error e s') : s' = s := by
  have hs := h s
  rw [hx] at hs
  exact hs

theorem Still.bind {x : EStateM ε σ α} {f : α → EStateM ε σ β} (hx : Still x)
    (hf : ∀ a, Still (f a)) : Still (x >>= f) := by
  intro s
  rw [bind_def]
  cases h : x s with
  | ok a t =>
      rw [hx.eq_of_ok h]
      exact hf a s
  | error e t => exact hx.eq_of_error h

theorem still_mapM {f : α → EStateM ε σ β} (hf : ∀ a, Still (f a)) (l : List α) :
    Still (l.mapM f) := by
  induction l with
  | nil => exact still_pure []
  | cons a l ih =>
      rw [List.mapM_cons]
      exact (hf a).bind fun b ↦ ih.bind fun bs ↦ still_pure (b :: bs)

/-- What follows a look succeeds in the state it was looked at. -/
theorem Still.bind_eq_ok {x : EStateM ε σ α} {f : α → EStateM ε σ β} (hx : Still x) {s s' : σ}
    {b : β} (h : (x >>= f) s = .ok b s') : ∃ a, f a s = .ok b s' := by
  obtain ⟨a, t, ha, hb⟩ := Fallible.bind_eq_ok.mp h
  rw [hx.eq_of_ok ha] at hb
  exact ⟨a, hb⟩

/-- A sequence behind a look fails in the look, which leaves no trace, or in what follows. -/
theorem Still.bind_eq_error {x : EStateM ε σ α} {f : α → EStateM ε σ β} (hx : Still x) {s s' : σ}
    {e : ε} (h : (x >>= f) s = .error e s') : s' = s ∨ ∃ a, f a s = .error e s' := by
  rcases Fallible.bind_eq_error.mp h with h | ⟨a, t, ha, hb⟩
  · exact Or.inl (hx.eq_of_error h)
  · rw [hx.eq_of_ok ha] at hb
    exact Or.inr ⟨a, hb⟩

/-! ## Loops that stop at the first error -/

/-- A sequence that keeps no state succeeds when both stages do. -/
theorem except_bind_eq_ok {x : Except ε α} {f : α → Except ε β} {b : β} :
    (x >>= f) = .ok b ↔ ∃ a, x = .ok a ∧ f a = .ok b := by
  cases x with
  | ok a =>
      constructor
      · exact fun h ↦ ⟨a, rfl, h⟩
      · rintro ⟨a', h, h'⟩
        cases h
        exact h'
  | error e =>
      constructor
      · exact fun h ↦ nomatch h
      · rintro ⟨a, h, -⟩
        cases h

/-- A loop depends on its body at the items it visits. -/
theorem mapM_congr {f g : α → Except ε β} {l : List α} (h : ∀ a ∈ l, f a = g a) :
    l.mapM f = l.mapM g := by
  induction l with
  | nil => rfl
  | cons a l ih =>
      rw [List.mapM_cons, List.mapM_cons, h a List.mem_cons_self,
        ih fun b hb ↦ h b (List.mem_cons_of_mem a hb)]

theorem foldlM_congr {f g : β → α → Except ε β} {l : List α} (h : ∀ a ∈ l, ∀ b, f b a = g b a)
    (b : β) : l.foldlM f b = l.foldlM g b := by
  induction l generalizing b with
  | nil => rfl
  | cons a l ih =>
      rw [List.foldlM_cons, List.foldlM_cons, h a List.mem_cons_self]
      congr 1
      funext c
      exact ih (fun x hx ↦ h x (List.mem_cons_of_mem a hx)) c

/-- A loop succeeds when its body succeeds at every item. -/
theorem mapM_eq_ok_iff {f : α → Except ε β} {l : List α} {ys : List β} :
    l.mapM f = .ok ys ↔ List.Forall₂ (fun a b ↦ f a = .ok b) l ys := by
  induction l generalizing ys with
  | nil =>
      rw [List.mapM_nil, List.forall₂_nil_left_iff]
      exact ⟨fun h ↦ by cases h; rfl, fun h ↦ by rw [h]; rfl⟩
  | cons a l ih =>
      rw [List.mapM_cons, except_bind_eq_ok, List.forall₂_cons_left_iff]
      constructor
      · rintro ⟨b, hb, h⟩
        obtain ⟨bs, hbs, h⟩ := except_bind_eq_ok.mp h
        cases h
        exact ⟨b, bs, hb, ih.mp hbs, rfl⟩
      · rintro ⟨b, bs, hb, hbs, rfl⟩
        exact ⟨b, hb, except_bind_eq_ok.mpr ⟨bs, ih.mpr hbs, rfl⟩⟩

/-- A loop over consecutive numbers. -/
theorem mapM_range'_eq_ok_iff {f : Nat → Except ε β} {a n : Nat} {ys : List β} :
    (List.range' a n).mapM f = .ok ys ↔
      ys.length = n ∧ ∀ i (h : i < ys.length), f (a + i) = .ok ys[i] := by
  have hlen : (List.range' a n).length = n := List.length_range'
  rw [mapM_eq_ok_iff, List.forall₂_iff_get]
  constructor
  · rintro ⟨hys, h⟩
    refine ⟨hys ▸ hlen, fun i hi ↦ ?_⟩
    have := h i (hys ▸ hi) hi
    rw [List.get_eq_getElem, List.get_eq_getElem, List.getElem_range', Nat.one_mul] at this
    exact this
  · rintro ⟨hys, h⟩
    refine ⟨hlen.trans hys.symm, fun i hi hi' ↦ ?_⟩
    rw [List.get_eq_getElem, List.get_eq_getElem, List.getElem_range', Nat.one_mul]
    exact h i hi'

/-! ## Runs of steps that may be impossible -/

/-- What every step keeps, a run keeps. -/
theorem foldlM_inv {P : σ → Prop} {f : σ → α → Option σ} {as : List α} {s s' : σ}
    (step : ∀ a ∈ as, ∀ s s', P s → f s a = some s' → P s') (hs : P s)
    (h : as.foldlM f s = some s') : P s' := by
  induction as generalizing s with
  | nil =>
      cases h
      exact hs
  | cons a as ih =>
      obtain ⟨mid, hmid, hrest⟩ := Option.bind_eq_some_iff.mp h
      exact ih (fun b hb ↦ step b (List.mem_cons_of_mem a hb))
        (step a List.mem_cons_self s mid hs hmid) hrest

end Koalisi.Lib.Fallible
