import Mathlib.Data.List.Basic
import Mathlib.Order.Lattice

/-!
# Timelines: folds over a log, cut at an instant

A log is a list of time-stamped entries, and every entry concerns some *keys*.
The history of a key is the sublist of the entries that name it, each entry
listed once for every time it does.  A point-in-time query folds the history of
one key from the oldest entry on and stops at the first entry later than the
instant asked for.

What the queries need is `foldUntil_mentions`: over a log that splits into
entries at or before `t` and entries after `t`, the cut fold of a history is a
plain fold of the first part in which the entries naming the key count once.
Nothing here assumes that the log is sorted; the split is the hypothesis.
-/

universe u v w x

namespace Koalisi.Lib.Timeline

variable {E : Type u} {T : Type v} {K : Type w} {α : Type x}

/-! ## The cut fold -/

/-- Fold until the first entry later than `t`: the `for` loop that breaks. -/
def foldUntil [LinearOrder T] (time : E → T) (t : T) (f : α → E → α) : α → List E → α
  | a, [] => a
  | a, e :: es => if t < time e then a else foldUntil time t f (f a e) es

section CutFold

variable [LinearOrder T] (time : E → T) (t : T) (f : α → E → α)

@[simp] theorem foldUntil_nil (a : α) : foldUntil time t f a [] = a := rfl

/-- Entries after the cut are never reached. -/
theorem foldUntil_of_late (a : α) {es : List E} (h : ∀ e ∈ es, t < time e) :
    foldUntil time t f a es = a := by
  cases es with
  | nil => rfl
  | cons e es => exact if_pos (h e List.mem_cons_self)

/-- A fold over entries none of which is later than the cut goes through. -/
theorem foldUntil_append (a : α) {es : List E} (h : ∀ e ∈ es, time e ≤ t) (fs : List E) :
    foldUntil time t f a (es ++ fs) = foldUntil time t f (es.foldl f a) fs := by
  induction es generalizing a with
  | nil => rfl
  | cons e es ih =>
      have he : ¬ t < time e := not_lt.mpr (h e List.mem_cons_self)
      rw [List.cons_append, foldUntil, if_neg he, List.foldl_cons]
      exact ih (f a e) fun e' he' ↦ h e' (List.mem_cons_of_mem e he')

/-- The cut fold of a log split at the cut is the plain fold of its first part. -/
theorem foldUntil_split (a : α) {es fs : List E} (hes : ∀ e ∈ es, time e ≤ t)
    (hfs : ∀ e ∈ fs, t < time e) : foldUntil time t f a (es ++ fs) = es.foldl f a := by
  rw [foldUntil_append time t f a hes, foldUntil_of_late time t f _ hfs]

/-- Entries after the cut change nothing, whatever order the others are in. -/
theorem foldUntil_append_late (a : α) (es : List E) {fs : List E} (h : ∀ e ∈ fs, t < time e) :
    foldUntil time t f a (es ++ fs) = foldUntil time t f a es := by
  induction es generalizing a with
  | nil => exact foldUntil_of_late time t f a h
  | cons e es ih =>
      rw [List.cons_append, foldUntil, foldUntil]
      split
      · rfl
      · exact ih (f a e)

end CutFold

/-! ## Histories -/

section Histories

variable [DecidableEq K] (keys : E → List K)

/-- The history of `k`: every entry, as often as it names `k`, in log order. -/
def mentions (k : K) (es : List E) : List E :=
  es.flatMap fun e ↦ List.replicate ((keys e).count k) e

@[simp] theorem mentions_nil (k : K) : mentions keys k [] = [] := rfl

theorem mentions_append (k : K) (es fs : List E) :
    mentions keys k (es ++ fs) = mentions keys k es ++ mentions keys k fs := by
  simp [mentions]

@[simp] theorem mentions_singleton (k : K) (e : E) :
    mentions keys k [e] = List.replicate ((keys e).count k) e := by
  simp [mentions]

theorem mem_mentions {k : K} {es : List E} {e : E} :
    e ∈ mentions keys k es ↔ e ∈ es ∧ k ∈ keys e := by
  simp only [mentions, List.mem_flatMap, List.mem_replicate, ne_eq, List.count_eq_zero,
    not_not]
  constructor
  · rintro ⟨e', he', hk, rfl⟩
    exact ⟨he', hk⟩
  · rintro ⟨he, hk⟩
    exact ⟨e, he, hk, rfl⟩

/-- A history has every entry that names the key, and maybe some of them more than once. -/
theorem length_filter_le_mentions (k : K) (es : List E) :
    (es.filter fun e ↦ k ∈ keys e).length ≤ (mentions keys k es).length := by
  induction es with
  | nil => exact le_rfl
  | cons e es ih =>
      rw [← List.singleton_append, mentions_append, mentions_singleton, List.filter_append,
        List.length_append, List.length_append, List.length_replicate]
      refine Nat.add_le_add ?_ ih
      by_cases hk : k ∈ keys e
      · rw [List.filter_singleton, decide_eq_true hk]
        exact List.count_pos_iff.mpr hk
      · rw [List.filter_singleton, decide_eq_false hk]
        exact Nat.zero_le _

/-- A history lists the entries that name the key once each just when none names it twice. -/
theorem mentions_eq_filter_iff (k : K) (es : List E) :
    mentions keys k es = es.filter (fun e ↦ k ∈ keys e) ↔ ∀ e ∈ es, (keys e).count k ≤ 1 := by
  induction es with
  | nil => exact iff_of_true rfl (List.forall_mem_nil _)
  | cons e es ih =>
      rw [List.forall_mem_cons, ← List.singleton_append, mentions_append, mentions_singleton,
        List.filter_append, List.filter_singleton]
      by_cases hk : k ∈ keys e
      · rw [decide_eq_true hk, cond_true]
        obtain ⟨n, hn⟩ : ∃ n, (keys e).count k = n + 1 :=
          Nat.exists_eq_succ_of_ne_zero (List.count_pos_iff.mpr hk).ne'
        rw [hn]
        constructor
        · intro heq
          -- were the entry listed twice, the history would be too long
          have hlen := congrArg List.length heq
          have hle := length_filter_le_mentions keys k es
          rw [List.length_append, List.length_append, List.length_replicate,
            List.length_singleton] at hlen
          obtain rfl : n = 0 := by omega
          rw [List.replicate_one] at heq
          exact ⟨le_rfl, ih.mp (List.append_cancel_left heq)⟩
        · rintro ⟨hle, hrest⟩
          obtain rfl : n = 0 := by omega
          rw [ih.mpr hrest, List.replicate_one]
      · rw [decide_eq_false hk, cond_false, List.count_eq_zero_of_not_mem hk, List.replicate_zero,
          List.nil_append, List.nil_append, ih]
        exact ⟨fun h ↦ ⟨Nat.zero_le _, h⟩, And.right⟩

/-- Fold the entries of a log that name `k`, each of them once. -/
def objectFold (k : K) (f : α → E → α) (a : α) (es : List E) : α :=
  es.foldl (fun a e ↦ if k ∈ keys e then f a e else a) a

@[simp] theorem objectFold_nil (k : K) (f : α → E → α) (a : α) :
    objectFold keys k f a [] = a := rfl

/-- One more entry is one more step, if it names the key. -/
theorem objectFold_concat (k : K) (f : α → E → α) (a : α) (es : List E) (e : E) :
    objectFold keys k f a (es ++ [e]) =
      if k ∈ keys e then f (objectFold keys k f a es) e else objectFold keys k f a es := by
  simp [objectFold]

/-- A log that never names the key leaves the fold where it started. -/
theorem objectFold_of_unmentioned (k : K) (f : α → E → α) (a : α) {es : List E}
    (h : ∀ e ∈ es, k ∉ keys e) : objectFold keys k f a es = a := by
  induction es with
  | nil => rfl
  | cons e es ih =>
      rw [objectFold, List.foldl_cons, if_neg (h e List.mem_cons_self)]
      exact ih fun e' he' ↦ h e' (List.mem_cons_of_mem e he')

/-- A step that is idempotent at an entry may be repeated any positive number of times. -/
theorem foldl_replicate_of_idem {f : α → E → α} {e : E} (hf : ∀ a, f (f a e) e = f a e)
    {n : Nat} (hn : n ≠ 0) (a : α) : (List.replicate n e).foldl f a = f a e := by
  induction n generalizing a with
  | zero => exact absurd rfl hn
  | succ n ih =>
      rw [List.replicate_succ, List.foldl_cons]
      by_cases h0 : n = 0
      · subst h0; rfl
      · rw [ih h0, hf]

/-- Folding a history is folding the entries that name the key once each, when
seeing an entry again changes nothing. -/
theorem foldl_mentions (k : K) {f : α → E → α} (hf : ∀ a e, f (f a e) e = f a e) (a : α)
    (es : List E) : (mentions keys k es).foldl f a = objectFold keys k f a es := by
  induction es generalizing a with
  | nil => rfl
  | cons e es ih =>
      rw [← List.singleton_append, mentions_append, List.foldl_append, mentions_singleton, ih,
        objectFold, objectFold, List.foldl_append, List.foldl_cons, List.foldl_nil]
      by_cases hk : k ∈ keys e
      · have hn : (keys e).count k ≠ 0 := fun h ↦ List.count_eq_zero.mp h hk
        rw [foldl_replicate_of_idem (fun a ↦ hf a e) hn, if_pos hk]
      · rw [List.count_eq_zero_of_not_mem hk, if_neg hk]; rfl

/-- A search of a history is a search of the entries that name the key. -/
theorem findSome?_mentions {β : Type*} (k : K) (f : E → Option β) (es : List E) :
    (mentions keys k es).findSome? f = es.findSome? fun e ↦ if k ∈ keys e then f e else none := by
  induction es with
  | nil => rfl
  | cons e es ih =>
      rw [← List.singleton_append, mentions_append, List.findSome?_append, mentions_singleton, ih,
        List.findSome?_append, List.findSome?_singleton]
      congr 1
      by_cases hk : k ∈ keys e
      · obtain ⟨n, hn⟩ : ∃ n, (keys e).count k = n + 1 :=
          Nat.exists_eq_succ_of_ne_zero (List.count_pos_iff.mpr hk).ne'
        rw [if_pos hk, hn]
        cases hf : f e <;> simp [hf]
      · rw [if_neg hk, List.count_eq_zero_of_not_mem hk]
        rfl

/-- **The point-in-time rule.** Over a log split at `t`, the cut fold of a
history is the object fold of the part at or before `t`. -/
theorem foldUntil_mentions [LinearOrder T] (time : E → T) (t : T) (k : K) {f : α → E → α}
    (hf : ∀ a e, f (f a e) e = f a e) (a : α) {es fs : List E}
    (hes : ∀ e ∈ es, time e ≤ t) (hfs : ∀ e ∈ fs, t < time e) :
    foldUntil time t f a (mentions keys k (es ++ fs)) = objectFold keys k f a es := by
  rw [mentions_append, foldUntil_split, foldl_mentions keys k hf]
  · exact fun e he ↦ hes e ((mem_mentions keys).mp he).1
  · exact fun e he ↦ hfs e ((mem_mentions keys).mp he).1

end Histories

end Koalisi.Lib.Timeline
