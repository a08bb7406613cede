import Mathlib.Data.List.Flatten
import Mathlib.Data.List.Lattice
import Mathlib.Data.List.Sort
import Mathlib.Order.Defs.LinearOrder

/-!
# Chronicles: a log in the order of its stamps

The chronicle of a log has its entries ordered by their stamps, those of one stamp in
the order the log has them.  It is the stable sort of the log, and the only list that
is ordered by stamps and agrees with the log at every stamp (`eq_of_forall_filter`).

An index by stamp gives the chronicle of a part of the log: go through the stamps of
that part upwards and list the entries of each (`flatMap_filter`).
-/

universe u v

namespace Koalisi.Lib

variable {E : Type u} {T : Type v} [LinearOrder T] (time : E → T)

/-- The entries in the order of their stamps, those of one stamp in log order. -/
def chronicle (es : List E) : List E := es.mergeSort fun a b ↦ decide (time a ≤ time b)

namespace chronicle

theorem perm (es : List E) : (chronicle time es).Perm es := List.mergeSort_perm _ _

@[simp] theorem mem_iff {es : List E} {e : E} : e ∈ chronicle time es ↔ e ∈ es :=
  (perm time es).mem_iff

/-- Stamps order entries transitively. -/
theorem decide_le_trans (a b c : E) (hab : decide (time a ≤ time b) = true)
    (hbc : decide (time b ≤ time c) = true) : decide (time a ≤ time c) = true :=
  decide_eq_true ((of_decide_eq_true hab).trans (of_decide_eq_true hbc))

/-- Stamps order any two entries. -/
theorem decide_le_total (a b : E) :
    (decide (time a ≤ time b) || decide (time b ≤ time a)) = true := by
  rw [Bool.or_eq_true, decide_eq_true_iff, decide_eq_true_iff]
  exact le_total _ _

/-- A chronicle is ordered. -/
theorem pairwise (es : List E) : (chronicle time es).Pairwise fun a b ↦ time a ≤ time b :=
  (List.pairwise_mergeSort (decide_le_trans time) (decide_le_total time) es).imp of_decide_eq_true

/-- A log that is ordered is its own chronicle. -/
theorem of_pairwise {es : List E} (h : es.Pairwise fun a b ↦ time a ≤ time b) :
    chronicle time es = es :=
  List.mergeSort_of_pairwise (h.imp decide_eq_true)

/-- At one stamp the chronicle is the log. -/
theorem filter_time (es : List E) (t : T) :
    (chronicle time es).filter (fun e ↦ time e = t) = es.filter fun e ↦ time e = t := by
  have hone : (es.filter fun e ↦ time e = t).Pairwise
      fun a b ↦ decide (time a ≤ time b) = true := by
    refine List.pairwise_of_forall_mem_list fun a ha b hb ↦ decide_eq_true ?_
    rw [of_decide_eq_true (List.mem_filter.mp ha).2, of_decide_eq_true (List.mem_filter.mp hb).2]
  -- the sort is stable, so it keeps the entries of one stamp in order
  have hsub : (es.filter fun e ↦ time e = t).Sublist (chronicle time es) :=
    List.sublist_mergeSort (decide_le_trans time) (decide_le_total time) hone List.filter_sublist
  have hkeep := hsub.filter fun e ↦ decide (time e = t)
  rw [List.filter_filter] at hkeep
  simp only [Bool.and_self] at hkeep
  exact (hkeep.eq_of_length ((perm time es).filter _).length_eq.symm).symm

variable {time}

/-- An ordered list starts at or before every stamp it has entries at. -/
theorem head_le {e : E} {es : List E} (h : (e :: es).Pairwise fun a b ↦ time a ≤ time b)
    {e' : E} (he' : e' ∈ e :: es) : time e ≤ time e' := by
  rcases List.mem_cons.mp he' with rfl | hmem
  · exact le_rfl
  · exact (List.pairwise_cons.mp h).1 e' hmem

/-- Lists that agree at every stamp have the same entries. -/
theorem mem_iff_of_forall_filter {es fs : List E}
    (h : ∀ t, (es.filter fun e ↦ time e = t) = fs.filter fun e ↦ time e = t) (e : E) :
    e ∈ es ↔ e ∈ fs := by
  have he := congrArg (e ∈ ·) (h (time e))
  simpa only [List.mem_filter, decide_true, and_true, eq_iff_iff] using he

/-- Lists that agree at the stamp of both heads have the same head. -/
theorem head_eq {e f : E} {es fs : List E} (htime : time e = time f)
    (h : ((e :: es).filter fun a ↦ time a = time e) = (f :: fs).filter fun a ↦ time a = time e) :
    e = f := by
  rw [List.filter_cons, List.filter_cons, if_pos (decide_eq_true rfl),
    if_pos (decide_eq_true htime.symm)] at h
  exact (List.cons.inj h).1

/-- Lists with the same head that agree at every stamp agree without it. -/
theorem forall_filter_tail {e : E} {es fs : List E}
    (h : ∀ t, ((e :: es).filter fun a ↦ time a = t) = (e :: fs).filter fun a ↦ time a = t) (t : T) :
    (es.filter fun a ↦ time a = t) = fs.filter fun a ↦ time a = t := by
  have ht := h t
  rw [List.filter_cons, List.filter_cons] at ht
  split at ht
  · exact (List.cons.inj ht).2
  · exact ht

/-- Ordered lists that agree at every stamp are equal. -/
theorem eq_of_forall_filter {es fs : List E} (hes : es.Pairwise fun a b ↦ time a ≤ time b)
    (hfs : fs.Pairwise fun a b ↦ time a ≤ time b)
    (h : ∀ t, (es.filter fun e ↦ time e = t) = fs.filter fun e ↦ time e = t) : es = fs := by
  induction es generalizing fs with
  | nil =>
      cases fs with
      | nil => rfl
      | cons f fs =>
          exact absurd ((mem_iff_of_forall_filter h f).mpr List.mem_cons_self) List.not_mem_nil
  | cons e es ih =>
      cases fs with
      | nil => exact absurd ((mem_iff_of_forall_filter h e).mp List.mem_cons_self) List.not_mem_nil
      | cons f fs =>
          have htime : time e = time f :=
            le_antisymm (head_le hes ((mem_iff_of_forall_filter h f).mpr List.mem_cons_self))
              (head_le hfs ((mem_iff_of_forall_filter h e).mp List.mem_cons_self))
          obtain rfl := head_eq htime (h (time e))
          exact congrArg (e :: ·) (ih hes.of_cons hfs.of_cons (forall_filter_tail h))

/-- The chronicle of a part of a log is that part of its chronicle. -/
theorem filter_chronicle (p : E → Bool) (es : List E) :
    (chronicle time es).filter p = chronicle time (es.filter p) := by
  refine eq_of_forall_filter ((pairwise time es).filter p) (pairwise time _) fun t ↦ ?_
  calc ((chronicle time es).filter p).filter (fun e ↦ time e = t)
      = ((chronicle time es).filter fun e ↦ time e = t).filter p := List.filter_comm _ _ _
    _ = (es.filter fun e ↦ time e = t).filter p := by rw [filter_time]
    _ = (es.filter p).filter fun e ↦ time e = t := List.filter_comm _ _ _
    _ = (chronicle time (es.filter p)).filter fun e ↦ time e = t := (filter_time time _ t).symm

/-- Logs with the same stamps one by one are told apart by their chronicles. -/
theorem eq_of_chronicle_eq {es fs : List E} (htimes : es.map time = fs.map time)
    (h : chronicle time es = chronicle time fs) : es = fs := by
  have hagree : ∀ t, (es.filter fun e ↦ time e = t) = fs.filter fun e ↦ time e = t := by
    intro t
    rw [← filter_time time es, h, filter_time]
  clear h
  induction es generalizing fs with
  | nil => exact (List.map_eq_nil_iff.mp htimes.symm).symm
  | cons e es ih =>
      cases fs with
      | nil => cases htimes
      | cons f fs =>
          obtain ⟨htime, hrest⟩ := List.cons.inj htimes
          obtain rfl := head_eq htime (hagree (time e))
          exact congrArg (e :: ·) (ih hrest (forall_filter_tail hagree))

/-- Listing the entries of distinct stamps one after the other is, at each stamp, the log. -/
theorem filter_flatMap_filter {ts : List T} (hts : ts.Nodup) (es : List E) (t : T) :
    (ts.flatMap fun s ↦ es.filter fun e ↦ time e = s).filter (fun e ↦ time e = t) =
      (es.filter fun e ↦ time e ∈ ts).filter fun e ↦ time e = t := by
  induction ts with
  | nil =>
      rw [List.flatMap_nil, List.filter_filter]
      refine (List.filter_eq_nil_iff.mpr fun e _ ↦ ?_).symm
      simp
  | cons s ts ih =>
      obtain ⟨hhead, htail⟩ := List.nodup_cons.mp hts
      rw [List.flatMap_cons, List.filter_append, ih htail]
      simp only [List.filter_filter]
      by_cases hs : s = t
      · -- no later stamp is this one
        subst hs
        have hnil : (es.filter fun e ↦ decide (time e = s) && decide (time e ∈ ts)) = [] := by
          refine List.filter_eq_nil_iff.mpr fun e _ he ↦ hhead ?_
          rw [Bool.and_eq_true, decide_eq_true_iff, decide_eq_true_iff] at he
          exact he.1 ▸ he.2
        rw [hnil, List.append_nil]
        refine List.filter_congr fun e _ ↦ ?_
        by_cases he : time e = s <;> simp [he]
      · have hnil : (es.filter fun e ↦ decide (time e = t) && decide (time e = s)) = [] := by
          refine List.filter_eq_nil_iff.mpr fun e _ he ↦ hs ?_
          rw [Bool.and_eq_true, decide_eq_true_iff, decide_eq_true_iff] at he
          exact he.2.symm.trans he.1
        rw [hnil, List.nil_append]
        refine List.filter_congr fun e _ ↦ ?_
        by_cases he : time e = t
        · simp [he, Ne.symm hs]
        · simp [he]

/-- Going through stamps upwards and listing the entries of each gives the chronicle of the
entries that have one of the stamps. -/
theorem flatMap_filter {ts : List T} (hts : ts.Pairwise (· < ·)) (es : List E) :
    (ts.flatMap fun t ↦ es.filter fun e ↦ time e = t) =
      chronicle time (es.filter fun e ↦ time e ∈ ts) := by
  refine eq_of_forall_filter ?_ (pairwise time _) fun t ↦ ?_
  · refine List.pairwise_flatMap.mpr ⟨fun t _ ↦ ?_, hts.imp fun hlt a ha b hb ↦ ?_⟩
    · refine List.pairwise_of_forall_mem_list fun a ha b hb ↦ ?_
      rw [of_decide_eq_true (List.mem_filter.mp ha).2, of_decide_eq_true (List.mem_filter.mp hb).2]
    · rw [of_decide_eq_true (List.mem_filter.mp ha).2, of_decide_eq_true (List.mem_filter.mp hb).2]
      exact hlt.le
  · rw [filter_time]
    exact filter_flatMap_filter (hts.imp ne_of_lt) es t

/-- Two parts of an ordered log, one before the other, put together are the log's part that
either covers. -/
theorem filter_append_filter {p q : E → Bool} {es : List E}
    (hes : es.Pairwise fun a b ↦ time a ≤ time b)
    (hpq : ∀ a b, p a = true → q b = true → time a < time b) :
    es.filter p ++ es.filter q = es.filter fun e ↦ p e || q e := by
  induction es with
  | nil => rfl
  | cons e es ih =>
      obtain ⟨hle, htail⟩ := List.pairwise_cons.mp hes
      by_cases hp : p e = true
      · have hq : ¬ q e = true := fun hq ↦ lt_irrefl _ (hpq e e hp hq)
        rw [List.filter_cons_of_pos hp, List.filter_cons_of_neg hq,
          List.filter_cons_of_pos (by simp [hp]), List.cons_append, ih htail]
      · by_cases hq : q e = true
        · -- no entry after `e` is before it
          have hnil : es.filter p = [] := by
            refine List.filter_eq_nil_iff.mpr fun a ha hpa ↦ ?_
            exact lt_irrefl _ ((hpq a e hpa hq).trans_le (hle a ha))
          have ih' := ih htail
          rw [hnil, List.nil_append] at ih'
          rw [List.filter_cons_of_neg hp, List.filter_cons_of_pos hq,
            List.filter_cons_of_pos (by simp [hq]), hnil, List.nil_append, ih']
        · rw [List.filter_cons_of_neg hp, List.filter_cons_of_neg hq,
            List.filter_cons_of_neg (by simp [hp, hq]), ih htail]

end chronicle

end Koalisi.Lib
