import Mathlib.Data.List.Basic
import Mathlib.Tactic.Linarith
import Koalisi.Lib.Timeline

/-!
# Posting lists: an inverted index of an append-only log

An append-only log that answers queries by key keeps, for every key, the
positions of the entries that name it.  The index is built while the log grows:
appending the entry at position `n` pushes `n` under each key the entry names,
as often as the entry names it.

`Indexes` is the invariant of that construction and `Indexes.append` its only
step.  What readers of the index use is `Indexes.resolve`: looking the positions
of `k` up in the log gives `Timeline.mentions`, the history of `k`.
-/

universe u v

namespace Koalisi.Lib

open Timeline

variable {E : Type u} {K : Type v} [Ord K]

/-- Positions of log entries by key. -/
abbrev Postings (K : Type v) [Ord K] := Std.TreeMap K (List Nat)

namespace Postings

/-- `entry(k).or_default().push(i)`. -/
def push (m : Postings K) (k : K) (i : Nat) : Postings K :=
  m.alter k fun is ↦ some (is.getD [] ++ [i])

/-- Push one position under each key of a list, in order. -/
def pushAll (m : Postings K) (ks : List K) (i : Nat) : Postings K :=
  ks.foldl (fun m k ↦ m.push k i) m

/-- The positions filed under `k`, oldest first. -/
def positions (m : Postings K) (k : K) : List Nat := (m[k]?).getD []

@[simp] theorem positions_empty [Std.TransOrd K] (k : K) : (∅ : Postings K).positions k = [] := by
  simp [Postings.positions]

variable [Std.TransOrd K] [DecidableEq K]

section Laws

variable [Std.LawfulEqOrd K]

/-- A push appends to the list of its key and to no other. -/
theorem positions_push (m : Postings K) (k k' : K) (i : Nat) :
    (m.push k i).positions k' = if k' = k then m.positions k' ++ [i] else m.positions k' := by
  unfold Postings.positions push
  rw [Std.TreeMap.getElem?_alter]
  by_cases h : k' = k
  · subst h; simp
  · rw [if_neg h, if_neg (fun hc ↦ h (Std.LawfulEqOrd.eq_of_compare hc).symm)]

theorem mem_push (m : Postings K) (k k' : K) (i : Nat) :
    k' ∈ m.push k i ↔ k' = k ∨ k' ∈ m := by
  unfold push
  rw [Std.TreeMap.mem_alter]
  by_cases h : k' = k
  · subst h; simp
  · rw [if_neg (fun hc ↦ h (Std.LawfulEqOrd.eq_of_compare hc).symm)]
    simp [h]

/-- Pushing under a list of keys files the position once per occurrence. -/
theorem positions_pushAll (m : Postings K) (ks : List K) (i : Nat) (k : K) :
    (m.pushAll ks i).positions k = m.positions k ++ List.replicate (ks.count k) i := by
  induction ks generalizing m with
  | nil => simp [pushAll]
  | cons k₀ ks ih =>
      change ((m.push k₀ i).pushAll ks i).positions k = _
      rw [ih, positions_push, List.count_cons]
      by_cases h : k = k₀
      · subst h
        simp only [if_true, BEq.rfl, List.append_assoc, List.singleton_append,
          ← List.replicate_succ]
      · simp [h, Ne.symm h]

theorem mem_pushAll (m : Postings K) (ks : List K) (i : Nat) (k : K) :
    k ∈ m.pushAll ks i ↔ k ∈ ks ∨ k ∈ m := by
  induction ks generalizing m with
  | nil => simp [pushAll]
  | cons k₀ ks ih =>
      change k ∈ (m.push k₀ i).pushAll ks i ↔ _
      rw [ih, mem_push, List.mem_cons]
      tauto

end Laws

/-! ## The invariant -/

/-- `m` is the index by `keys` of the log `es`: the positions under a key are in
range and resolve to the key's history, and a key is present exactly when some
entry names it. -/
structure Indexes (keys : E → List K) (es : List E) (m : Postings K) : Prop where
  /-- Positions under a key resolve to the history of that key. -/
  resolve : ∀ k, (m.positions k).filterMap (es[·]?) = mentions keys k es
  /-- Positions are positions of the log. -/
  inRange : ∀ k, ∀ i ∈ m.positions k, i < es.length
  /-- The keys of the index are the keys some entry names. -/
  present : ∀ k, k ∈ m ↔ ∃ e ∈ es, k ∈ keys e

namespace Indexes

variable {keys : E → List K} {es : List E} {m : Postings K}

/-- The empty index indexes the empty log. -/
theorem empty : Indexes keys [] (∅ : Postings K) where
  resolve k := by simp
  inRange k i hi := by simp at hi
  present k := by simp

/-- Appending an entry and pushing its position under its keys keeps the index. -/
theorem append [Std.LawfulEqOrd K] (h : Indexes keys es m) (e : E) :
    Indexes keys (es ++ [e]) (m.pushAll (keys e) es.length) where
  resolve k := by
    have hold : (m.positions k).filterMap ((es ++ [e])[·]?) = (m.positions k).filterMap (es[·]?) :=
      List.filterMap_congr fun i hi ↦ List.getElem?_append_left (h.inRange k i hi)
    have hnew : (List.replicate ((keys e).count k) es.length).filterMap ((es ++ [e])[·]?) =
        List.replicate ((keys e).count k) e := by
      induction (keys e).count k with
      | zero => rfl
      | succ n ih => simp [List.replicate_succ, ih]
    rw [positions_pushAll, List.filterMap_append, hold, hnew, h.resolve k, mentions_append,
      mentions_singleton]
  inRange k i hi := by
    rw [positions_pushAll, List.mem_append, List.mem_replicate] at hi
    rw [List.length_append, List.length_singleton]
    rcases hi with hi | ⟨_, rfl⟩
    · exact Nat.lt_succ_of_lt (h.inRange k i hi)
    · exact Nat.lt_succ_self _
  present k := by
    rw [mem_pushAll, h.present k]
    simp only [List.mem_append, List.mem_singleton, or_and_right, exists_or, exists_eq_left]
    exact or_comm

/-- The keys of an index of a non-empty log are not empty, if every entry names a key. -/
theorem isEmpty_iff (h : Indexes keys es m) (hkeys : ∀ e, keys e ≠ []) :
    m.isEmpty = true ↔ es = [] := by
  rw [Std.TreeMap.isEmpty_iff_forall_not_mem]
  constructor
  · intro hnone
    refine List.eq_nil_iff_forall_not_mem.mpr fun e he ↦ ?_
    obtain ⟨k, hk⟩ := List.exists_mem_of_ne_nil _ (hkeys e)
    exact hnone k ((h.present k).mpr ⟨e, he, hk⟩)
  · rintro rfl k hk
    obtain ⟨e, he, _⟩ := (h.present k).mp hk
    exact List.not_mem_nil he

/-- The entries of an index by one key each resolve, key by key, to the part of the log that has
the key. -/
theorem resolve_filter [Std.LawfulEqOrd K] {key : E → K} (h : Indexes (fun e ↦ [key e]) es m)
    (p : K → Bool) :
    ((m.toList.filter fun entry ↦ p entry.1).flatMap Prod.snd).filterMap (es[·]?) =
      (m.keys.filter p).flatMap fun k ↦ es.filter fun e ↦ key e = k := by
  have hone : ∀ k, mentions (fun e ↦ [key e]) k es = es.filter fun e ↦ key e = k := by
    intro k
    rw [(mentions_eq_filter_iff _ k es).mpr fun e _ ↦
      List.count_singleton.trans_le (by split <;> omega)]
    simp only [List.mem_singleton, eq_comm]
  rw [List.filterMap_flatMap, ← Std.TreeMap.map_fst_toList_eq_keys, List.filter_map,
    List.flatMap_map]
  refine List.flatMap_congr fun entry hentry ↦ ?_
  have hget : m[entry.1]? = some entry.2 :=
    Std.TreeMap.mem_toList_iff_getElem?_eq_some.mp (List.mem_filter.mp hentry).1
  have hpositions : m.positions entry.1 = entry.2 := by rw [positions, hget, Option.getD_some]
  rw [← hone, ← h.resolve, hpositions]

end Indexes

/-! ## Ranges -/

/-- `range(lo..hi)`: the entries with a key from `lo` on and before `hi`, by key.  Bounds the
wrong way round panic (`none`), and whether they do so on an empty map is left open. -/
def range (checksEmpty : Bool) (m : Postings K) (lo hi : K) : Option (List (K × List Nat)) :=
  if compare lo hi = .gt ∧ (checksEmpty = true ∨ m.isEmpty = false) then none
  else some (m.toList.filter fun entry ↦ (compare lo entry.1).isLE && (compare entry.1 hi).isLT)

end Postings

end Koalisi.Lib
