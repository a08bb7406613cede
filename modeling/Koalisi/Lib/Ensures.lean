import Koalisi.Lib.Fallible

/-!
# What a computation leaves behind, if it comes to an end

A computation on a state may get stuck.  `Ensures` says, from a given state, what is known of
the result and of the state that is left, if it does not get stuck.  The rules go through a
program piece by piece; a loop takes an invariant about what is done.
-/

namespace Koalisi.Lib

variable {σ α β : Type}

/-- If the computation comes to an end, it is as the property says. -/
def Ensures (x : StateT σ Option α) (s : σ) (Q : α → σ → Prop) : Prop :=
  ∀ a t, x.run s = some (a, t) → Q a t

namespace Ensures

variable {s : σ} {Q R : α → σ → Prop} {P : β → σ → Prop}

theorem imp {x : StateT σ Option α} (hx : Ensures x s R) (h : ∀ a t, R a t → Q a t) :
    Ensures x s Q := fun a t hrun ↦ h a t (hx a t hrun)

/-- What is known, together with how it came about. -/
theorem with_run {x : StateT σ Option α} (hx : Ensures x s Q) :
    Ensures x s fun a t ↦ Q a t ∧ x.run s = some (a, t) := fun a t hrun ↦ ⟨hx a t hrun, hrun⟩

theorem pure {a : α} (h : Q a s) : Ensures (Pure.pure a) s Q := by
  intro b t hrun
  cases hrun
  exact h

/-- There is nothing to show of a computation that gets stuck. -/
theorem stuck : Ensures (StateT.lift none : StateT σ Option α) s Q := by
  intro a t hrun
  cases hrun

theorem bind {x : StateT σ Option α} {f : α → StateT σ Option β} (hx : Ensures x s R)
    (hf : ∀ a t, R a t → Ensures (f a) t P) : Ensures (x >>= f) s P := by
  intro b u hrun
  rw [StateT.run_bind] at hrun
  obtain ⟨⟨a, t⟩, hxs, hft⟩ := Option.bind_eq_some_iff.mp hrun
  exact hf a t (hx a t hxs) b u hft

theorem modifyGet {f : σ → α × σ} (h : Q (f s).1 (f s).2) :
    Ensures (MonadState.modifyGet f) s Q := by
  intro a t hrun
  have hfs : f s = (a, t) := Option.some.inj hrun
  rw [hfs] at h
  exact h

/-- Go on with the state. -/
theorem get_bind {f : σ → StateT σ Option β} (h : Ensures (f s) s P) :
    Ensures (MonadState.get >>= f) s P := h

/-- Go on from another state. -/
theorem modifyGet_bind {f : σ → α × σ} {g : α → StateT σ Option β}
    (h : Ensures (g (f s).1) (f s).2 P) : Ensures (MonadState.modifyGet f >>= g) s P := h

/-- Go on with a value that does not depend on the state. -/
theorem lift_bind {x : Option α} {f : α → StateT σ Option β}
    (h : ∀ a, x = some a → Ensures (f a) s P) : Ensures (StateT.lift x >>= f) s P := by
  cases x with
  | none => exact stuck.bind fun _ _ h ↦ h
  | some a => exact h a rfl

/-- A loop with an invariant about what is done and the result so far. -/
theorem foldlM {f : β → α → StateT σ Option β} {l : List α} (I : List α → β → σ → Prop)
    (h : ∀ front, ∀ a ∈ l, ∀ b t, I front b t → Ensures (f b a) t (I (front ++ [a]))) {b : β}
    (hb : I [] b s) : Ensures (l.foldlM f b) s (I l) := by
  suffices hfrom : ∀ rest front b t, (∀ a ∈ rest, a ∈ l) → I front b t →
      Ensures (rest.foldlM f b) t (I (front ++ rest)) from hfrom l [] b s (fun _ ha ↦ ha) hb
  intro rest
  induction rest with
  | nil =>
      intro front b t _ hb
      rw [List.foldlM_nil, List.append_nil]
      exact pure hb
  | cons a rest ih =>
      intro front b t hmem hb
      rw [List.foldlM_cons, List.append_cons]
      exact (h front a (hmem a List.mem_cons_self) b t hb).bind fun c u hc ↦
        ih (front ++ [a]) c u (fun a' ha ↦ hmem a' (List.mem_cons_of_mem a ha)) hc

end Ensures

end Koalisi.Lib
