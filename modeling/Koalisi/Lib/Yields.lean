import Mathlib.Order.Defs.PartialOrder
import Koalisi.Lib.Fallible

/-!
# Computations that do not get stuck

A computation on a state that may get stuck (an index out of bounds, say) *yields* a
property if it comes to an end from every state, with a result of that property.  The rules
go through a program piece by piece; loops take an invariant, and `Yields.foldlM_rest` one
that may mention what is still to be done.
-/

namespace Koalisi.Lib

open Koalisi.Lib.Fallible

variable {σ α β γ : Type}

/-! ## Without a state -/

theorem mapM_eq_some_of_forall₂ {f : α → Option β} {l : List α} {l' : List β}
    (h : List.Forall₂ (fun a b ↦ f a = some b) l l') : l.mapM f = some l' := by
  induction h with
  | nil => rfl
  | cons hab _ ih =>
      rw [List.mapM_cons, hab, ih]
      rfl

theorem forall₂_of_mapM_eq_some {f : α → Option β} {l : List α} {l' : List β}
    (h : l.mapM f = some l') : List.Forall₂ (fun a b ↦ f a = some b) l l' := by
  induction l generalizing l' with
  | nil =>
      cases h
      exact .nil
  | cons a l ih =>
      rw [List.mapM_cons] at h
      obtain ⟨b, hb, h⟩ := Option.bind_eq_some_iff.mp h
      obtain ⟨bs, hbs, h⟩ := Option.bind_eq_some_iff.mp h
      cases h
      exact .cons hb (ih hbs)

theorem exists_mapM_forall₂ {f : α → Option β} {R : α → β → Prop} {l : List α}
    (h : ∀ a ∈ l, ∃ b, f a = some b ∧ R a b) : ∃ l', l.mapM f = some l' ∧ List.Forall₂ R l l' := by
  induction l with
  | nil => exact ⟨[], rfl, .nil⟩
  | cons a l ih =>
      obtain ⟨b, hb, hab⟩ := h a List.mem_cons_self
      obtain ⟨bs, hbs, habs⟩ := ih fun a' ha ↦ h a' (List.mem_cons_of_mem a ha)
      exact ⟨b :: bs, by rw [List.mapM_cons, hb, hbs]; rfl, .cons hab habs⟩

/-- Two runs over lists that are related element by element: both fail, or the results are
related. -/
theorem mapM_rel {α' β' : Type} {f : α → Option β} {f' : α' → Option β'} {R : α → α' → Prop}
    {S : β → β' → Prop} (h : ∀ a a', R a a' → Option.Rel S (f a) (f' a')) {l : List α}
    {l' : List α'} (hl : List.Forall₂ R l l') :
    Option.Rel (List.Forall₂ S) (l.mapM f) (l'.mapM f') := by
  induction hl with
  | nil => exact .some .nil
  | @cons a a' l l' ha _ ih =>
      have hfirst := h a a' ha
      rw [List.mapM_cons, List.mapM_cons]
      generalize f a = x, f' a' = x' at hfirst
      generalize l.mapM f = rest, l'.mapM f' = rest' at ih
      cases hfirst with
      | none => exact .none
      | some hb =>
          cases ih with
          | none => exact .none
          | some hbs => exact .some (.cons hb hbs)

theorem forall_of_forall₂ {P : β → Prop} {l : List α} {l' : List β}
    (h : List.Forall₂ (fun _ b ↦ P b) l l') : ∀ b ∈ l', P b := by
  induction h with
  | nil => exact fun b hb ↦ absurd hb List.not_mem_nil
  | cons hb _ ih => exact List.forall_mem_cons.mpr ⟨hb, ih⟩

theorem forall₂_imp_of_mem {R S : α → β → Prop} {l : List α} {l' : List β}
    (h : List.Forall₂ R l l') (himp : ∀ a, ∀ b ∈ l', R a b → S a b) : List.Forall₂ S l l' := by
  induction h with
  | nil => exact .nil
  | cons hab _ ih =>
      exact .cons (himp _ _ List.mem_cons_self hab)
        (ih fun a b hb ↦ himp a b (List.mem_cons_of_mem _ hb))

/-- A loop within a loop is one loop over all that the inner ones go through. -/
theorem foldlM_flatMap {f : β → γ → Option β} {g : α → List γ} (l : List α) (b : β) :
    (l.flatMap g).foldlM f b = l.foldlM (fun b a ↦ (g a).foldlM f b) b := by
  induction l generalizing b with
  | nil => rfl
  | cons a l ih =>
      rw [List.flatMap_cons, List.foldlM_append, List.foldlM_cons]
      exact bind_congr fun c ↦ ih c

/-- A loop with an invariant about the result so far and what is left to do. -/
theorem exists_foldlM_rest {f : β → α → Option β} (I : List α → β → Prop)
    (h : ∀ a rest b, I (a :: rest) b → ∃ c, f b a = some c ∧ I rest c) {l : List α} {b : β}
    (hb : I l b) : ∃ c, l.foldlM f b = some c ∧ I [] c := by
  induction l generalizing b with
  | nil => exact ⟨b, rfl, hb⟩
  | cons a l ih =>
      obtain ⟨c, hc, hrest⟩ := h a l b hb
      rw [List.foldlM_cons, hc]
      exact ih hrest

/-! ## With a state -/

/-- The computation succeeds from every state, and its result has the property. -/
def Yields (x : StateT σ Option α) (P : α → Prop) : Prop :=
  ∀ s, ∃ a s', x.run s = some (a, s') ∧ P a

namespace Yields

variable {P : α → Prop} {Q : β → Prop}

theorem pure {a : α} (h : P a) : Yields (Pure.pure a : StateT σ Option α) P := fun s ↦
  ⟨a, s, rfl, h⟩

/-- Something that does not depend on the state. -/
theorem lift {x : Option α} {a : α} (hx : x = some a) (h : P a) :
    Yields (StateT.lift x : StateT σ Option α) P := fun s ↦
  ⟨a, s, by rw [hx]; rfl, h⟩

theorem bind {x : StateT σ Option α} {f : α → StateT σ Option β} (hx : Yields x P)
    (hf : ∀ a, P a → Yields (f a) Q) : Yields (x >>= f) Q := by
  intro s
  obtain ⟨a, t, hxs, ha⟩ := hx s
  obtain ⟨b, u, hft, hb⟩ := hf a ha t
  refine ⟨b, u, ?_, hb⟩
  rw [StateT.run_bind, hxs]
  exact hft

theorem imp {x : StateT σ Option α} {P' : α → Prop} (hx : Yields x P) (h : ∀ a, P a → P' a) :
    Yields x P' := by
  intro s
  obtain ⟨a, t, hxs, ha⟩ := hx s
  exact ⟨a, t, hxs, h a ha⟩

/-- A loop that collects results. -/
theorem mapM {f : α → StateT σ Option β} {R : α → β → Prop} {l : List α}
    (h : ∀ a ∈ l, Yields (f a) (R a)) : Yields (l.mapM f) (List.Forall₂ R l) := by
  induction l with
  | nil =>
      rw [List.mapM_nil]
      exact Yields.pure .nil
  | cons a l ih =>
      rw [List.mapM_cons]
      refine (h a List.mem_cons_self).bind fun b hb ↦ ?_
      refine (ih fun a' ha ↦ h a' (List.mem_cons_of_mem a ha)).bind fun bs hbs ↦ ?_
      exact Yields.pure (.cons hb hbs)

/-- A loop with an invariant about the result so far and what is left to do. -/
theorem foldlM_rest {f : β → α → StateT σ Option β} {l : List α} (I : List α → β → Prop)
    (h : ∀ a rest b, I (a :: rest) b → Yields (f b a) (I rest)) {b : β} (hb : I l b) :
    Yields (l.foldlM f b) (I []) := by
  induction l generalizing b with
  | nil => exact Yields.pure hb
  | cons a l ih =>
      rw [List.foldlM_cons]
      exact (h a l b hb).bind fun c hc ↦ ih hc

/-- A loop with an invariant. -/
theorem foldlM {f : β → α → StateT σ Option β} {l : List α}
    (h : ∀ a ∈ l, ∀ b, Q b → Yields (f b a) Q) {b : β} (hb : Q b) : Yields (l.foldlM f b) Q := by
  induction l generalizing b with
  | nil => exact Yields.pure hb
  | cons a l ih =>
      rw [List.foldlM_cons]
      exact (h a List.mem_cons_self b hb).bind fun c hc ↦
        ih (fun a' ha ↦ h a' (List.mem_cons_of_mem a ha)) hc

end Yields

/-! ## With a state and errors -/

section Ends

variable {ε : Type} {P : α → σ → Prop} {Q : β → σ → Prop} {s : σ}

/-- The computation returns a value from a state, and value and state have the property. -/
def Ends (x : EStateM ε σ α) (s : σ) (P : α → σ → Prop) : Prop := ∃ a t, x s = .ok a t ∧ P a t

theorem Ends.bind {x : EStateM ε σ α} {f : α → EStateM ε σ β} (hx : Ends x s P)
    (hf : ∀ a t, P a t → Ends (f a) t Q) : Ends (x >>= f) s Q := by
  obtain ⟨a, t, hxs, ha⟩ := hx
  obtain ⟨b, u, hft, hb⟩ := hf a t ha
  exact ⟨b, u, bind_eq_ok.mpr ⟨a, t, hxs, hft⟩, hb⟩

/-- The first stage is known to return a value. -/
theorem Ends.bind_ok {x : EStateM ε σ α} {f : α → EStateM ε σ β} {a : α} {t : σ}
    (hx : x s = .ok a t) (hf : Ends (f a) t Q) : Ends (x >>= f) s Q := by
  obtain ⟨b, u, hft, hb⟩ := hf
  exact ⟨b, u, bind_eq_ok.mpr ⟨a, t, hx, hft⟩, hb⟩

theorem Ends.imp {x : EStateM ε σ α} {P' : α → σ → Prop} (hx : Ends x s P)
    (h : ∀ a t, P a t → P' a t) : Ends x s P' := by
  obtain ⟨a, t, hxs, ha⟩ := hx
  exact ⟨a, t, hxs, h a t ha⟩

theorem ends_pure {a : α} (h : P a s) : Ends (pure a : EStateM ε σ α) s P := ⟨a, s, rfl, h⟩

/-- A loop with an invariant about what is done, what is left to do, the result so far and
the state. -/
theorem ends_foldlM {f : β → α → EStateM ε σ β} (I : List α → List α → β → σ → Prop) {l : List α}
    (h : ∀ front a rest b s, l = front ++ a :: rest → I front (a :: rest) b s →
      Ends (f b a) s (I (front ++ [a]) rest)) {b : β} (hb : I [] l b s) :
    Ends (l.foldlM f b) s (I l []) := by
  suffices hfrom : ∀ front rest b s, l = front ++ rest → I front rest b s →
      Ends (rest.foldlM f b) s (I l []) from hfrom [] l b s rfl hb
  intro front rest
  induction rest generalizing front with
  | nil =>
      intro b s hl hI
      rw [List.append_nil] at hl
      exact ends_pure (hl ▸ hI)
  | cons a rest ih =>
      intro b s hl hI
      rw [List.foldlM_cons]
      exact (h front a rest b s hl hI).bind fun c t hc ↦
        ih (front ++ [a]) c t (by rw [hl, List.append_assoc]; rfl) hc

/-- A loop that collects results, with an invariant about the results so far. -/
theorem ends_mapM {f : α → EStateM ε σ β} (I : List α → List β → σ → Prop) {l : List α}
    (h : ∀ front bs a s, I front bs s → Ends (f a) s fun b ↦ I (front ++ [a]) (bs ++ [b]))
    (hs : I [] [] s) : Ends (l.mapM f) s (I l) := by
  suffices hfrom : ∀ front bs s, I front bs s →
      Ends (l.mapM f) s fun bs' ↦ I (front ++ l) (bs ++ bs') from hfrom [] [] s hs
  induction l with
  | nil =>
      intro front bs s hI
      rw [List.mapM_nil]
      exact ends_pure (by rwa [List.append_nil, List.append_nil])
  | cons a l ih =>
      intro front bs s hI
      rw [List.mapM_cons]
      refine (h front bs a s hI).bind fun b t hb ↦ (ih _ _ t hb).bind fun bs' u hu ↦ ?_
      refine ends_pure ?_
      rwa [List.append_assoc, List.append_assoc] at hu

end Ends

end Koalisi.Lib
