import Mathlib.Data.List.TakeWhile
import Mathlib.Order.Lattice

/-!
# Walking along a log, sample by sample

A walk keeps a state and a place in a log.  For a sample at `t` it goes on until it meets an
entry later than `t`, and leaves that entry for the next sample.  Over an ordered log the
walk has then seen the entries at or before `t`, all of them and no other, wherever the
samples before it were taken (`drain_eq_filter`, `drain_drain`).
-/

universe u v w

namespace Koalisi.Lib

variable {E : Type u} {T : Type v} {α : Type w} [LinearOrder T] (time : E → T) (step : α → E → α)

/-- Take in the entries up to `t`; the rest is left. -/
def drain (t : T) : α → List E → α × List E
  | a, [] => (a, [])
  | a, e :: rest => if t < time e then (a, e :: rest) else drain t (step a e) rest

theorem drain_eq_takeWhile (t : T) (a : α) (log : List E) :
    drain time step t a log =
      ((log.takeWhile fun e ↦ time e ≤ t).foldl step a, log.dropWhile fun e ↦ time e ≤ t) := by
  induction log generalizing a with
  | nil => rfl
  | cons e rest ih =>
      rw [drain]
      split
      · rename_i hlate
        have hp : ¬decide (time e ≤ t) = true := by simpa using hlate
        rw [List.takeWhile_cons, List.dropWhile_cons, if_neg hp, if_neg hp]
        rfl
      · rename_i hlate
        have hp : decide (time e ≤ t) = true := decide_eq_true (not_lt.mp hlate)
        rw [List.takeWhile_cons, List.dropWhile_cons, if_pos hp, if_pos hp]
        exact ih (step a e)

variable {time}

/-- In an ordered log the entries up to `t` come first. -/
theorem takeWhile_eq_filter {log : List E} (hsorted : log.Pairwise fun a b ↦ time a ≤ time b)
    (t : T) :
    (log.takeWhile fun e ↦ time e ≤ t) = (log.filter fun e ↦ time e ≤ t) ∧
      (log.dropWhile fun e ↦ time e ≤ t) = log.filter fun e ↦ t < time e := by
  induction log with
  | nil => exact ⟨rfl, rfl⟩
  | cons e rest ih =>
      obtain ⟨htake, hdrop⟩ := ih hsorted.of_cons
      rcases le_or_gt (time e) t with hle | hlt
      · have hp : decide (time e ≤ t) = true := decide_eq_true hle
        have hq : ¬decide (t < time e) = true := by simpa using hle
        constructor
        · rw [List.takeWhile_cons, if_pos hp, htake, List.filter_cons, if_pos hp]
        · rw [List.dropWhile_cons, if_pos hp, hdrop, List.filter_cons, if_neg hq]
      · -- every later entry is later than `t` too
        have hlate : ∀ e' ∈ e :: rest, t < time e' := List.forall_mem_cons.mpr
          ⟨hlt, fun e' he' ↦ hlt.trans_le (List.rel_of_pairwise_cons hsorted he')⟩
        have hp : ¬decide (time e ≤ t) = true := by simpa using hlt
        constructor
        · rw [List.takeWhile_cons, if_neg hp, eq_comm, List.filter_eq_nil_iff]
          exact fun e' he' ↦ by simpa using hlate e' he'
        · rw [List.dropWhile_cons, if_neg hp, eq_comm, List.filter_eq_self]
          exact fun e' he' ↦ decide_eq_true (hlate e' he')

variable {step}

/-- The first sample. -/
theorem drain_eq_filter {log : List E} (hsorted : log.Pairwise fun a b ↦ time a ≤ time b) (t : T)
    (a : α) :
    drain time step t a log =
      ((log.filter fun e ↦ time e ≤ t).foldl step a, log.filter fun e ↦ t < time e) := by
  obtain ⟨htake, hdrop⟩ := takeWhile_eq_filter hsorted t
  rw [drain_eq_takeWhile, htake, hdrop]

/-- The next one: what an earlier sample left is taken in as if it had been left from the
start. -/
theorem drain_drain {log : List E} (hsorted : log.Pairwise fun a b ↦ time a ≤ time b) {t t' : T}
    (h : t ≤ t') (a : α) :
    drain time step t' (drain time step t a log).1 (drain time step t a log).2 =
      drain time step t' a log := by
  rw [drain_eq_filter hsorted t, drain_eq_filter (hsorted.filter _), drain_eq_filter hsorted t',
    ← List.foldl_append]
  have hbefore : (log.filter fun e ↦ time e ≤ t) = ((log.filter fun e ↦ time e ≤ t').filter
      fun e ↦ time e ≤ t) := by
    rw [List.filter_filter]
    refine List.filter_congr fun e _ ↦ ?_
    rw [Bool.eq_iff_iff, Bool.and_eq_true]
    simp only [decide_eq_true_iff]
    exact ⟨fun he ↦ ⟨he, he.trans h⟩, And.left⟩
  have hbetween : ((log.filter fun e ↦ t < time e).filter fun e ↦ time e ≤ t') =
      (log.filter fun e ↦ time e ≤ t').filter fun e ↦ t < time e := by
    rw [List.filter_filter, List.filter_filter]
    exact List.filter_congr fun e _ ↦ Bool.and_comm _ _
  have hafter : ((log.filter fun e ↦ t < time e).filter fun e ↦ t' < time e) =
      log.filter fun e ↦ t' < time e := by
    rw [List.filter_filter]
    refine List.filter_congr fun e _ ↦ ?_
    rw [Bool.eq_iff_iff, Bool.and_eq_true]
    simp only [decide_eq_true_iff]
    exact ⟨And.left, fun he ↦ ⟨he, h.trans_lt he⟩⟩
  obtain ⟨htake, hdrop⟩ := takeWhile_eq_filter (hsorted.filter fun e ↦ time e ≤ t') t
  rw [hbefore, hbetween, hafter, ← htake, ← hdrop, List.takeWhile_append_dropWhile]

end Koalisi.Lib
