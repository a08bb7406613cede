import Mathlib.Order.Bounds.Defs
import Mathlib.Order.Compare
import Koalisi.Lib.Chronicle
import Std.Data.TreeMap

/-!
# The latest value at or before a key

A map that is written under a key again has only the last value there.  So a map filled from a log
of keyed values has, at every key, the last value the log gives that key, which is `Latest`.

What such maps are read for is the value at the greatest key not after a given one.  That is the
last entry of the chronicle of what was written at or before the key (`Latest.getLast?_upTo`),
whatever order the keys were written in.
-/

universe u v

namespace Koalisi.Lib

variable {T : Type u} {W : Type v}

/-! ## The ends of an ordered list -/

/-- An ordered list begins with the element that comes before all others. -/
theorem head?_eq_some_iff {r : T → T → Prop} (hr : ∀ a b, r a b → ¬ r b a) {l : List T}
    (h : l.Pairwise r) (t : T) : l.head? = some t ↔ t ∈ l ∧ ∀ s ∈ l, s = t ∨ r t s := by
  constructor
  · intro hhead
    obtain ⟨rest, rfl⟩ := List.head?_eq_some_iff.mp hhead
    refine ⟨List.mem_cons_self, fun s hs ↦ ?_⟩
    exact (List.mem_cons.mp hs).imp_right fun hrest ↦ List.rel_of_pairwise_cons h hrest
  · rintro ⟨ht, hbefore⟩
    obtain ⟨s, rest, rfl⟩ := List.exists_cons_of_ne_nil (List.ne_nil_of_mem ht)
    rcases List.mem_cons.mp ht with rfl | hrest
    · rfl
    · have hst := List.rel_of_pairwise_cons h hrest
      rcases hbefore s List.mem_cons_self with rfl | hts
      · rfl
      · exact absurd hst (hr t s hts)

variable [LinearOrder T]

/-- A list that goes up begins with its least element. -/
theorem head?_eq_some_iff_isLeast {l : List T} (h : l.Pairwise (· < ·)) (t : T) :
    l.head? = some t ↔ IsLeast {s | s ∈ l} t := by
  rw [head?_eq_some_iff (fun _ _ ↦ lt_asymm) h]
  exact and_congr_right' (forall₂_congr fun s _ ↦ by rw [le_iff_eq_or_lt, eq_comm])

/-- A list that goes up ends with its greatest element. -/
theorem getLast?_eq_some_iff_isGreatest {l : List T} (h : l.Pairwise (· < ·)) (t : T) :
    l.getLast? = some t ↔ IsGreatest {s | s ∈ l} t := by
  rw [← List.head?_reverse, head?_eq_some_iff (r := fun a b ↦ b < a) (fun _ _ ↦ lt_asymm)
    (List.pairwise_reverse.mpr h)]
  simp only [List.mem_reverse]
  exact and_congr_right' (forall₂_congr fun s _ ↦ by rw [le_iff_eq_or_lt])

/-! ## Maps of last values -/

/-- The map has the last value of the log at every key. -/
def Latest (es : List (T × W)) (m : Std.TreeMap T W) : Prop :=
  ∀ t, m[t]? = ((es.filter fun e ↦ e.1 = t).getLast?).map Prod.snd

/-- The entries of a map at or before a key: `range(..=t)`. -/
def upTo (m : Std.TreeMap T W) (t : T) : List (T × W) :=
  m.toList.filter fun entry ↦ (compare entry.1 t).isLE

namespace Latest

variable {es : List (T × W)} {m : Std.TreeMap T W}

/-- Nothing was written to an empty map. -/
theorem empty : Latest ([] : List (T × W)) ∅ := fun _ ↦ Std.TreeMap.getElem?_emptyc

/-- Writing a value puts it in place of what was at the key. -/
theorem insert (h : Latest es m) (t : T) (w : W) : Latest (es ++ [(t, w)]) (m.insert t w) := by
  intro s
  rw [Std.TreeMap.getElem?_insert, List.filter_append, List.filter_singleton]
  by_cases hs : t = s
  · subst hs
    rw [if_pos Std.compare_self, decide_eq_true rfl, cond_true, List.getLast?_concat]
    rfl
  · rw [if_neg fun hc ↦ hs (compare_eq_iff_eq.mp hc), decide_eq_false hs, cond_false,
      List.append_nil]
    exact h s

/-- The keys of the map are those the log gives a value. -/
theorem mem_keys_iff (h : Latest es m) (t : T) : t ∈ m.keys ↔ ∃ e ∈ es, e.1 = t := by
  rw [Std.TreeMap.mem_keys, Std.TreeMap.mem_iff_isSome_getElem?, h t, Option.isSome_map,
    List.getLast?_isSome]
  constructor
  · intro hne
    obtain ⟨e, he⟩ := List.exists_mem_of_ne_nil _ hne
    exact ⟨e, (List.mem_filter.mp he).1, of_decide_eq_true (List.mem_filter.mp he).2⟩
  · rintro ⟨e, he, ht⟩
    exact List.ne_nil_of_mem (List.mem_filter.mpr ⟨he, decide_eq_true ht⟩)

/-- At every key of the map the log has an entry, and the last one has the map's value. -/
theorem getLast?_of_mem (h : Latest es m) {entry : T × W} (hentry : entry ∈ m.toList) :
    (es.filter fun e ↦ e.1 = entry.1).getLast? = some entry := by
  have hget := (Std.TreeMap.mem_toList_iff_getElem?_eq_some.mp hentry).symm.trans (h entry.1)
  obtain ⟨e, he, hval⟩ := Option.map_eq_some_iff.mp hget.symm
  have hkey := of_decide_eq_true (List.mem_filter.mp (List.mem_of_getLast? he)).2
  rw [he, Prod.ext hkey hval]

/-- The last entry at or before a key is the last one of the log's chronicle up to there. -/
theorem getLast?_upTo (h : Latest es m) (t : T) :
    (upTo m t).getLast? = (chronicle Prod.fst (es.filter fun e ↦ e.1 ≤ t)).getLast? := by
  have hkeys : ((upTo m t).map Prod.fst).Pairwise (· < ·) := by
    refine List.Pairwise.sublist (List.filter_sublist.map _) ?_
    rw [Std.TreeMap.map_fst_toList_eq_keys]
    exact Std.TreeMap.ordered_keys.imp compare_lt_iff_lt.mp
  have hmem : ∀ e ∈ es, e.1 ∈ (upTo m t).map Prod.fst ↔ e.1 ≤ t := by
    intro e he
    rw [List.mem_map]
    constructor
    · rintro ⟨entry, hentry, hfst⟩
      rw [← hfst]
      exact compare_le_iff_le.mp
        (Ordering.ne_gt_iff_isLE.mpr (List.mem_filter.mp hentry).2)
    · intro hle
      have hin := (h.mem_keys_iff e.1).mpr ⟨e, he, rfl⟩
      rw [← Std.TreeMap.map_fst_toList_eq_keys] at hin
      obtain ⟨entry, hentry, hfst⟩ := List.mem_map.mp hin
      refine ⟨entry, List.mem_filter.mpr ⟨hentry, ?_⟩, hfst⟩
      exact Ordering.ne_gt_iff_isLE.mp (compare_le_iff_le.mpr (hfst.trans_le hle))
  have hparts : es.filter (fun e ↦ e.1 ≤ t) =
      es.filter fun e ↦ e.1 ∈ (upTo m t).map Prod.fst :=
    List.filter_congr fun e he ↦ decide_eq_decide.mpr (hmem e he).symm
  rw [hparts, ← chronicle.flatMap_filter hkeys, List.flatMap_map, List.getLast?_flatMap]
  -- of every key the last entry is the map's, so the first one found from behind is the last key's
  rw [← List.head?_reverse]
  have hall : ∀ entry ∈ (upTo m t).reverse,
      (es.filter fun e ↦ e.1 = entry.1).getLast? = some entry := fun entry hentry ↦
    h.getLast?_of_mem (List.mem_of_mem_filter (List.mem_reverse.mp hentry))
  rcases hrev : (upTo m t).reverse with _ | ⟨entry, rest⟩
  · rfl
  · rw [hrev] at hall
    rw [List.head?_cons, List.findSome?_cons, hall entry List.mem_cons_self]

end Latest

end Koalisi.Lib
