import Koalisi.Lib.Yields

/-!
# What a computation returns, if it does

A computation on a state may return a value and a new state, or it may not.  `Returns` says
that whatever it returns has a property; nothing is said of a computation that gets stuck
or fails.  `Refines` says that one computation returns whatever another one does, from the
same state and leaving the same state.

Both are stated for any kind of computation that leads from a state to a value and a state
(`Leading`), so that a loop is looked at only once.
-/

namespace Koalisi.Lib

open Koalisi.Lib.Fallible

/-- Computations that lead from a state to a value and a state. -/
class Leading (m : Type → Type) [Monad m] (σ : outParam Type) where
  /-- From a state the computation returns a value and a state. -/
  Leads {α : Type} : m α → σ → α → σ → Prop
  leads_pure {α : Type} {a b : α} {s t : σ} : Leads (pure a) s b t ↔ a = b ∧ s = t
  leads_bind {α β : Type} {x : m α} {f : α → m β} {s u : σ} {b : β} :
    Leads (x >>= f) s b u ↔ ∃ a t, Leads x s a t ∧ Leads (f a) t b u

open Leading

instance leadingStateT {σ : Type} : Leading (StateT σ Option) σ where
  Leads x s a t := x.run s = some (a, t)
  leads_pure := by
    intro α a b s t
    rw [StateT.run_pure]
    constructor
    · intro h
      cases h
      exact ⟨rfl, rfl⟩
    · rintro ⟨rfl, rfl⟩
      rfl
  leads_bind := by
    intro α β x f s u b
    rw [StateT.run_bind]
    constructor
    · intro h
      obtain ⟨⟨a, t⟩, hx, hf⟩ := Option.bind_eq_some_iff.mp h
      exact ⟨a, t, hx, hf⟩
    · rintro ⟨a, t, hx, hf⟩
      exact Option.bind_eq_some_iff.mpr ⟨(a, t), hx, hf⟩

instance leadingEStateM {ε σ : Type} : Leading (EStateM ε σ) σ where
  Leads x s a t := x s = .ok a t
  leads_pure := pure_eq_ok
  leads_bind := bind_eq_ok

variable {m : Type → Type} {σ α β γ : Type} [Monad m] [Leading m σ]

/-! ## What is returned -/

/-- Whatever the computation returns has the property. -/
def Returns (x : m α) (P : α → Prop) : Prop := ∀ s a t, Leads x s a t → P a

namespace Returns

variable {P : α → Prop} {Q : β → Prop}

theorem pure {a : α} (h : P a) : Returns (Pure.pure a : m α) P := by
  intro s b t hb
  obtain ⟨rfl, -⟩ := leads_pure.mp hb
  exact h

theorem bind {x : m α} {f : α → m β} (hx : Returns x P) (hf : ∀ a, P a → Returns (f a) Q) :
    Returns (x >>= f) Q := by
  intro s b u h
  obtain ⟨a, t, ha, hb⟩ := leads_bind.mp h
  exact hf a (hx s a t ha) t b u hb

theorem imp {x : m α} {P' : α → Prop} (hx : Returns x P) (h : ∀ a, P a → P' a) : Returns x P' :=
  fun s a t ha ↦ h a (hx s a t ha)

/-- Nothing is known. -/
theorem any (x : m α) : Returns x fun _ ↦ True := fun _ _ _ _ ↦ trivial

/-- The result is computed from what a computation returns. -/
theorem map [LawfulMonad m] {x : m α} {f : α → β} (hx : Returns x fun a ↦ Q (f a)) :
    Returns (f <$> x) Q := by
  rw [map_eq_pure_bind]
  exact hx.bind fun a ha ↦ Returns.pure ha

/-- A loop that collects results. -/
theorem mapM [LawfulMonad m] {f : α → m β} {R : α → β → Prop} {l : List α}
    (h : ∀ a ∈ l, Returns (f a) (R a)) : Returns (l.mapM f) (List.Forall₂ R l) := by
  induction l with
  | nil =>
      rw [List.mapM_nil]
      exact Returns.pure .nil
  | cons a l ih =>
      rw [List.mapM_cons]
      refine (h a List.mem_cons_self).bind fun b hb ↦ ?_
      refine (ih fun a' ha ↦ h a' (List.mem_cons_of_mem a ha)).bind fun bs hbs ↦ ?_
      exact Returns.pure (.cons hb hbs)

/-- A loop with an invariant about what is done and the result so far. -/
theorem foldlM [LawfulMonad m] {f : β → α → m β} {l : List α} (I : List α → β → Prop)
    (h : ∀ front, ∀ a ∈ l, ∀ b, I front b → Returns (f b a) (I (front ++ [a]))) {b : β}
    (hb : I [] b) : Returns (l.foldlM f b) (I l) := by
  suffices hfrom : ∀ rest front b, (∀ a ∈ rest, a ∈ l) → I front b →
      Returns (rest.foldlM f b) (I (front ++ rest)) from hfrom l [] b (fun _ ha ↦ ha) hb
  intro rest
  induction rest with
  | nil =>
      intro front b _ hb
      rw [List.foldlM_nil, List.append_nil]
      exact Returns.pure hb
  | cons a rest ih =>
      intro front b hmem hb
      rw [List.foldlM_cons, List.append_cons]
      exact (h front a (hmem a List.mem_cons_self) b hb).bind fun c hc ↦
        ih (front ++ [a]) c (fun a' ha ↦ hmem a' (List.mem_cons_of_mem a ha)) hc

/-- A computation that always comes to an end yields what it returns. -/
theorem yields {x : StateT σ Option α} (hx : Returns x P) (h : Yields x fun _ ↦ True) :
    Yields x P := by
  intro s
  obtain ⟨a, t, hrun, -⟩ := h s
  exact ⟨a, t, hrun, hx s a t hrun⟩

end Returns

/-! ## Returning whatever another computation returns -/

/-- The second computation returns whatever the first one does. -/
def Refines (x y : m α) : Prop := ∀ s a t, Leads x s a t → Leads y s a t

namespace Refines

theorem refl (x : m α) : Refines x x := fun _ _ _ h ↦ h

/-- A computation that never returns is refined by anything. -/
theorem of_never {x y : m α} (hx : Returns x fun _ ↦ False) : Refines x y :=
  fun s a t h ↦ (hx s a t h).elim

theorem bind {x y : m α} {f g : α → m β} (hxy : Refines x y) (hfg : ∀ a, Refines (f a) (g a)) :
    Refines (x >>= f) (y >>= g) := by
  intro s b u h
  obtain ⟨a, t, ha, hb⟩ := leads_bind.mp h
  exact leads_bind.mpr ⟨a, t, hxy s a t ha, hfg a t b u hb⟩

theorem foldlM [LawfulMonad m] {f g : β → α → m β} {l : List α}
    (h : ∀ b, ∀ a ∈ l, Refines (f b a) (g b a)) (b : β) :
    Refines (l.foldlM f b) (l.foldlM g b) := by
  induction l generalizing b with
  | nil => exact refl _
  | cons a l ih =>
      rw [List.foldlM_cons, List.foldlM_cons]
      exact (h b a List.mem_cons_self).bind
        (ih fun c a' ha ↦ h c a' (List.mem_cons_of_mem a ha))

end Refines

end Koalisi.Lib
