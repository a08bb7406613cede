import Mathlib.Data.List.Forall2
import Koalisi.Lib.Fallible

/-!
# Computations that come to an end

A computation on a state may get stuck, and where it does not it may still throw an error,
which leaves the state as it was at the throw.  `Settles` says that from a given state the
computation does not get stuck, and what is known of its result and of the state it leaves.
An error is a result like another: the rules for throwing computations are about `x.run`.

A loop that is cut off after a number of rounds comes to an end by itself if more rounds would
not change what it came to.
-/

namespace Koalisi.Lib

variable {ε σ α β : Type}

/-- From the state the computation comes to an end, as the property says. -/
def Settles (x : StateT σ Option α) (s : σ) (Q : α → σ → Prop) : Prop :=
  ∃ a t, x.run s = some (a, t) ∧ Q a t

namespace Settles

variable {s : σ} {Q R : α → σ → Prop} {P : β → σ → Prop}

theorem imp {x : StateT σ Option α} (hx : Settles x s R) (h : ∀ a t, R a t → Q a t) :
    Settles x s Q := by
  obtain ⟨a, t, hrun, ha⟩ := hx
  exact ⟨a, t, hrun, h a t ha⟩

/-- What is known holds of what the computation came to. -/
theorem of_run {x : StateT σ Option α} {a : α} {t : σ} (hx : Settles x s Q)
    (hrun : x.run s = some (a, t)) : Q a t := by
  obtain ⟨a', t', hrun', h⟩ := hx
  cases hrun.symm.trans hrun'
  exact h

/-- Two things known of one computation are known together. -/
theorem and {x : StateT σ Option α} (hx : Settles x s Q) (hx' : Settles x s R) :
    Settles x s fun a t ↦ Q a t ∧ R a t := by
  obtain ⟨a, t, hrun, ha⟩ := hx
  obtain ⟨a', t', hrun', ha'⟩ := hx'
  cases hrun.symm.trans hrun'
  exact ⟨a, t, hrun, ha, ha'⟩

theorem pure {a : α} (h : Q a s) : Settles (Pure.pure a) s Q := ⟨a, s, rfl, h⟩

theorem bind {x : StateT σ Option α} {f : α → StateT σ Option β} (hx : Settles x s R)
    (hf : ∀ a t, R a t → Settles (f a) t P) : Settles (x >>= f) s P := by
  obtain ⟨a, t, hrun, ha⟩ := hx
  obtain ⟨b, u, hrun', hb⟩ := hf a t ha
  refine ⟨b, u, ?_, hb⟩
  rw [StateT.run_bind, hrun]
  exact hrun'

theorem get {Q : σ → σ → Prop} (h : Q s s) : Settles MonadState.get s Q := ⟨s, s, rfl, h⟩

theorem set {t : σ} {Q : PUnit → σ → Prop} (h : Q ⟨⟩ t) : Settles (MonadStateOf.set t) s Q :=
  ⟨⟨⟩, t, rfl, h⟩

theorem modifyGet {f : σ → α × σ} (h : Q (f s).1 (f s).2) :
    Settles (MonadState.modifyGet f) s Q := ⟨(f s).1, (f s).2, rfl, h⟩

/-- A loop that collects results and keeps an invariant. -/
theorem mapM {f : α → StateT σ Option β} {I : σ → Prop} {R : α → β → Prop} {l : List α}
    (h : ∀ a ∈ l, ∀ t, I t → Settles (f a) t fun b u ↦ I u ∧ R a b) (hs : I s) :
    Settles (l.mapM f) s fun bs t ↦ I t ∧ List.Forall₂ R l bs := by
  induction l generalizing s with
  | nil =>
      rw [List.mapM_nil]
      exact pure ⟨hs, .nil⟩
  | cons a l ih =>
      rw [List.mapM_cons]
      refine (h a List.mem_cons_self s hs).bind fun b t hb ↦ ?_
      refine (ih (fun a' ha ↦ h a' (List.mem_cons_of_mem a ha)) hb.1).bind fun bs u hbs ↦ ?_
      exact pure ⟨hbs.1, .cons hb.2 hbs.2⟩

/-! ## With errors -/

variable {S : Except ε α → σ → Prop} {T : Except ε β → σ → Prop}

theorem ok {a : α} (h : S (.ok a) s) :
    Settles (Pure.pure a : ExceptT ε (StateT σ Option) α).run s S := ⟨.ok a, s, rfl, h⟩

/-- A computation that does not throw. -/
theorem lift {x : StateT σ Option α} (hx : Settles x s fun a t ↦ S (.ok a) t) :
    Settles (ExceptT.lift x : ExceptT ε (StateT σ Option) α).run s S := by
  obtain ⟨a, t, hrun, ha⟩ := hx
  refine ⟨.ok a, t, ?_, ha⟩
  rw [ExceptT.run_lift, StateT.run_map, hrun]
  rfl

/-- Go on with the value, or leave with the error. -/
theorem andThen {x : ExceptT ε (StateT σ Option) α} {f : α → ExceptT ε (StateT σ Option) β}
    (hx : Settles x.run s S) (hok : ∀ a t, S (.ok a) t → Settles (f a).run t T)
    (herr : ∀ e t, S (.error e) t → T (.error e) t) : Settles (x >>= f).run s T := by
  rw [ExceptT.run_bind]
  refine hx.bind fun r t h ↦ ?_
  cases r with
  | ok a => exact hok a t h
  | error e => exact .pure (herr e t h)

end Settles

/-! ## Loops that are cut off -/

section CutOff

variable {f : Nat → Option α} {a : α} {rounds : Nat}

/-- More rounds do not change a result, if one more does not. -/
theorem eq_some_of_le (hmore : ∀ n a, f n = some a → f (n + 1) = some a) {n : Nat}
    (hle : rounds ≤ n) (h : f rounds = some a) : f n = some a := by
  induction hle with
  | refl => exact h
  | step _ ih => exact hmore _ a ih

/-- A loop that has a result in time has taken a number of rounds to it. -/
theorem exists_rounds (hmore : ∀ n a, f n = some a → f (n + 1) = some a)
    (h : f rounds = some a) : ∃ n ≤ rounds, ∀ m, f m = if n ≤ m then some a else none := by
  induction rounds with
  | zero =>
      refine ⟨0, Nat.le_refl 0, fun m ↦ ?_⟩
      rw [if_pos (Nat.zero_le m)]
      exact eq_some_of_le hmore (Nat.zero_le m) h
  | succ rounds ih =>
      cases hbefore : f rounds with
      | some b =>
          cases (hmore rounds b hbefore).symm.trans h
          obtain ⟨n, hle, hn⟩ := ih hbefore
          exact ⟨n, Nat.le_succ_of_le hle, hn⟩
      | none =>
          refine ⟨rounds + 1, Nat.le_refl _, fun m ↦ ?_⟩
          split
          · next hle => exact eq_some_of_le hmore hle h
          · next hlt =>
              rw [Option.eq_none_iff_forall_ne_some]
              intro b hb
              -- it would have come to this before
              have hle : m ≤ rounds := Nat.le_of_lt_succ (Nat.lt_of_not_le hlt)
              exact Option.some_ne_none b ((eq_some_of_le hmore hle hb).symm.trans hbefore)

end CutOff

end Koalisi.Lib
