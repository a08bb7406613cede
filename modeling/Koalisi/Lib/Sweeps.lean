import Mathlib.Data.List.Basic
import Mathlib.Order.MinMax

/-!
# Sweeping a list of members

Each item of a list is asked in turn, as long as it is a member, whether it leaves, and one
occurrence of it goes if it does; what is answered may depend on the members that are left.

A sweep keeps what every single leave keeps.  And where only those stay who are needed, and
whoever is needed among many is needed among fewer, it leaves nobody who is not needed:
nobody has to be asked again (`needed_of_mem_sweep`).

If those leave who cover nothing alone, then what is covered stays covered, and in the end
everybody covers something alone.  If those leave whom somebody else outranks in all that they
cover, then the best stay.
-/

namespace Koalisi.Lib.Sweeps

variable {α : Type*} [DecidableEq α]

/-- Ask an item whether it leaves, if it is a member. -/
def ask (leaves : List α → α → Bool) (members : List α) (a : α) : List α :=
  if a ∈ members ∧ leaves members a = true then members.erase a else members

/-- Ask all of them in turn. -/
def sweep (leaves : List α → α → Bool) (asked members : List α) : List α :=
  asked.foldl (ask leaves) members

variable {leaves leaves' : List α → α → Bool} {members asked : List α} {a : α}

theorem sweep_cons :
    sweep leaves (a :: asked) members = sweep leaves asked (ask leaves members a) :=
  rfl

theorem ask_sublist (leaves : List α → α → Bool) (members : List α) (a : α) :
    (ask leaves members a).Sublist members := by
  unfold ask
  split
  · exact List.erase_sublist
  · exact List.Sublist.refl _

theorem sweep_sublist (leaves : List α → α → Bool) (asked members : List α) :
    (sweep leaves asked members).Sublist members := by
  induction asked generalizing members with
  | nil => exact List.Sublist.refl _
  | cons a asked ih => exact (ih _).trans (ask_sublist leaves members a)

/-- What every leave keeps, a sweep keeps. -/
theorem sweep_keeps {P : List α → Prop} (asked : List α)
    (hleave : ∀ ms, ms.Sublist members → ∀ a ∈ ms, leaves ms a = true → P ms → P (ms.erase a))
    (h : P members) : P (sweep leaves asked members) := by
  induction asked generalizing members with
  | nil => exact h
  | cons a asked ih =>
      have hsub := ask_sublist leaves members a
      refine ih (fun ms hms ↦ hleave ms (hms.trans hsub)) ?_
      unfold ask
      split
      · rename_i hask
        exact hleave members (List.Sublist.refl _) a hask.1 hask.2 h
      · exact h

/-- The same answers make the same sweep. -/
theorem sweep_congr (asked : List α)
    (h : ∀ ms, ms.Sublist members → ∀ a ∈ ms, leaves ms a = leaves' ms a) :
    sweep leaves asked members = sweep leaves' asked members := by
  induction asked generalizing members with
  | nil => rfl
  | cons a asked ih =>
      have hask : ask leaves members a = ask leaves' members a := by
        unfold ask
        by_cases ha : a ∈ members
        · rw [h members (List.Sublist.refl _) a ha]
        · rw [if_neg fun hand ↦ ha hand.1, if_neg fun hand ↦ ha hand.1]
      rw [sweep_cons, sweep_cons, ← hask]
      exact ih fun ms hms ↦ h ms (hms.trans (ask_sublist leaves members a))

/-- Who stays is needed, and who is needed among many is needed among fewer. -/
structure Judges (leaves : List α → α → Bool) (needed : List α → α → Prop) : Prop where
  iff {ms : List α} {a : α} : a ∈ ms → (leaves ms a = false ↔ needed ms a)
  mono {ms ms' : List α} {a : α} : ms'.Sublist ms → a ∈ ms' → needed ms a → needed ms' a

/-- A sweep that asks everybody, as often as it is a member, leaves those who are needed. -/
theorem needed_of_mem_sweep {needed : List α → α → Prop} (h : Judges leaves needed)
    (hcount : ∀ a ∈ members, members.count a ≤ asked.count a)
    (ha : a ∈ sweep leaves asked members) : needed (sweep leaves asked members) a := by
  -- whoever is not known to be needed is still to be asked about all its occurrences
  suffices hfrom : ∀ ms, (∀ a ∈ ms, needed ms a ∨ ms.count a ≤ asked.count a) →
      ∀ a ∈ sweep leaves asked ms, needed (sweep leaves asked ms) a from
    hfrom members (fun a ha ↦ Or.inr (hcount a ha)) a ha
  clear hcount ha
  intro ms hms
  induction asked generalizing ms with
  | nil =>
      intro a ha
      refine (hms a ha).resolve_right fun hzero ↦ ?_
      rw [List.count_nil, Nat.le_zero] at hzero
      exact List.count_eq_zero.mp hzero ha
  | cons b asked ih =>
      rw [sweep_cons]
      refine ih _ fun a ha ↦ ?_
      have hsub := ask_sublist leaves ms b
      by_cases hneeded : needed ms a
      · exact Or.inl (h.mono hsub ha hneeded)
      · right
        have hle := (hms a (hsub.subset ha)).resolve_left hneeded
        by_cases hab : a = b
        · subst hab
          have hleaves : leaves ms a = true :=
            (Bool.eq_false_or_eq_true _).resolve_right fun hstays ↦
              hneeded ((h.iff (hsub.subset ha)).mp hstays)
          rw [ask, if_pos ⟨hsub.subset ha, hleaves⟩, List.count_erase_self]
          rw [List.count_cons_self] at hle
          exact Nat.sub_le_of_le_add hle
        · rw [List.count_cons_of_ne (Ne.symm hab)] at hle
          exact Nat.le_trans (hsub.count_le a) hle

/-! ## Leaving a cover -/

section Cover

variable {κ : Type*} {covers : α → κ → Bool} {demand : List κ} {k : κ}

/-- All that is demanded and covered is covered without the member, too. -/
def spare (covers : α → κ → Bool) (demand : List κ) (members : List α) (a : α) : Bool :=
  demand.all fun k ↦ !members.any (covers · k) || members.any fun b ↦ b ≠ a && covers b k

/-- The member covers something that is demanded, and nobody else covers it. -/
def Sole (covers : α → κ → Bool) (demand : List κ) (members : List α) (a : α) : Prop :=
  ∃ k ∈ demand, covers a k = true ∧ ∀ b ∈ members, covers b k = true → b = a

theorem spare_iff : spare covers demand members a = true ↔
    ∀ k ∈ demand, (∃ b ∈ members, covers b k = true) →
      ∃ b ∈ members, b ≠ a ∧ covers b k = true := by
  simp only [spare, List.all_eq_true, Bool.or_eq_true, Bool.not_eq_true', List.any_eq_false,
    List.any_eq_true, Bool.and_eq_true, decide_eq_true_eq]
  refine forall₂_congr fun k _ ↦ ⟨fun h hcovered ↦ ?_, fun h ↦ ?_⟩
  · obtain ⟨b, hb, hcovers⟩ := hcovered
    exact h.resolve_left fun hnone ↦ hnone b hb hcovers
  · by_cases hcovered : ∃ b ∈ members, covers b k = true
    · exact Or.inr (h hcovered)
    · exact Or.inl fun b hb hcovers ↦ hcovered ⟨b, hb, hcovers⟩

/-- Only those stay who cover something alone. -/
theorem spare_judges : Judges (spare covers demand) (Sole covers demand) where
  iff {ms a} ha := by
    rw [← Bool.not_eq_true, spare_iff]
    constructor
    · intro h
      simp only [not_forall] at h
      obtain ⟨k, hk, ⟨b, hb, hcovers⟩, hnone⟩ := h
      have hsole : ∀ c ∈ ms, covers c k = true → c = a := fun c hc hcovers ↦
        of_not_not fun hne ↦ hnone ⟨c, hc, hne, hcovers⟩
      obtain rfl := hsole b hb hcovers
      exact ⟨k, hk, hcovers, hsole⟩
    · rintro ⟨k, hk, hcovers, hsole⟩ h
      obtain ⟨b, hb, hne, hcovers⟩ := h k hk ⟨a, ha, hcovers⟩
      exact hne (hsole b hb hcovers)
  mono hsub _ h := by
    obtain ⟨k, hk, hcovers, hsole⟩ := h
    exact ⟨k, hk, hcovers, fun b hb ↦ hsole b (hsub.subset hb)⟩

/-- What is covered without a member is covered when it has left. -/
theorem any_erase_eq (hspare : spare covers demand members a = true) (hk : k ∈ demand) :
    (members.erase a).any (covers · k) = members.any (covers · k) := by
  refine Bool.eq_iff_iff.mpr ⟨fun h ↦ ?_, fun h ↦ ?_⟩
  · obtain ⟨b, hb, hcovers⟩ := List.any_eq_true.mp h
    exact List.any_eq_true.mpr ⟨b, List.mem_of_mem_erase hb, hcovers⟩
  · obtain ⟨b, hb, hne, hcovers⟩ := spare_iff.mp hspare k hk (List.any_eq_true.mp h)
    exact List.any_eq_true.mpr ⟨b, (List.mem_erase_of_ne hne).mpr hb, hcovers⟩

/-- If everybody who leaves is spare, what is covered stays covered. -/
theorem any_sweep_eq (hspare : ∀ ms, ms.Sublist members → ∀ a ∈ ms, leaves ms a = true →
    spare covers demand ms a = true) (hk : k ∈ demand) :
    (sweep leaves asked members).any (covers · k) = members.any (covers · k) :=
  sweep_keeps (P := fun ms ↦ ms.any (covers · k) = members.any (covers · k)) asked
    (fun ms hms a ha hleaves h ↦ (any_erase_eq (hspare ms hms a ha hleaves) hk).trans h) rfl

end Cover

/-! ## Leaving the best -/

section Best

variable {κ V : Type*} [LinearOrder V] {covers : α → κ → Bool} {value : α → V} {k : κ} {v : V}

/-- The greatest value among those who cover something, if there is anybody. -/
def best (covers : α → κ → Bool) (value : α → V) (members : List α) (k : κ) : Option V :=
  ((members.filter (covers · k)).map value).max?

omit [DecidableEq α] in
theorem best_eq_some_iff : best covers value members k = some v ↔
    (∃ a ∈ members, covers a k = true ∧ value a = v) ∧
      ∀ a ∈ members, covers a k = true → value a ≤ v := by
  simp only [best, List.max?_eq_some_iff, List.mem_map, List.mem_filter, and_assoc,
    forall_exists_index, and_imp]
  refine and_congr_right fun _ ↦ ⟨fun h a ha hcovers ↦ h _ a ha hcovers rfl, ?_⟩
  rintro h _ a ha hcovers rfl
  exact h a ha hcovers

omit [DecidableEq α] in
theorem isSome_best : (best covers value members k).isSome = members.any (covers · k) := by
  rw [Bool.eq_iff_iff, Option.isSome_iff_ne_none, best, ne_eq, List.max?_eq_none_iff,
    List.map_eq_nil_iff, List.filter_eq_nil_iff, List.any_eq_true]
  simp only [Bool.not_eq_true, not_forall, Bool.not_eq_false, exists_prop]

/-- If somebody else covers it who is as good, the greatest value stays. -/
theorem best_erase (ha : a ∈ members) (h : covers a k = true →
    ∃ b ∈ members, b ≠ a ∧ covers b k = true ∧ value a ≤ value b) :
    best covers value (members.erase a) k = best covers value members k := by
  refine Option.ext fun v ↦ ?_
  rw [best_eq_some_iff, best_eq_some_iff]
  constructor
  · rintro ⟨⟨b, hb, hcovers, rfl⟩, hle⟩
    refine ⟨⟨b, List.mem_of_mem_erase hb, hcovers, rfl⟩, fun c hc hcovers ↦ ?_⟩
    by_cases hca : c = a
    · subst hca
      obtain ⟨d, hd, hne, hcovers', hcd⟩ := h hcovers
      exact hcd.trans (hle d ((List.mem_erase_of_ne hne).mpr hd) hcovers')
    · exact hle c ((List.mem_erase_of_ne hca).mpr hc) hcovers
  · rintro ⟨⟨b, hb, hcovers, rfl⟩, hle⟩
    refine ⟨?_, fun c hc ↦ hle c (List.mem_of_mem_erase hc)⟩
    by_cases hba : b = a
    · subst hba
      obtain ⟨c, hc, hne, hcovers', hbc⟩ := h hcovers
      exact ⟨c, (List.mem_erase_of_ne hne).mpr hc, hcovers',
        le_antisymm (hle c hc hcovers') hbc⟩
    · exact ⟨b, (List.mem_erase_of_ne hba).mpr hb, hcovers, rfl⟩

/-- If whoever leaves is outranked, the greatest value stays. -/
theorem best_sweep (hleave : ∀ ms, ms.Sublist members → ∀ a ∈ ms, leaves ms a = true →
      covers a k = true → ∃ b ∈ ms, b ≠ a ∧ covers b k = true ∧ value a ≤ value b) :
    best covers value (sweep leaves asked members) k = best covers value members k :=
  sweep_keeps (P := fun ms ↦ best covers value ms k = best covers value members k) asked
    (fun ms hms a ha hleaves h ↦ (best_erase ha (hleave ms hms a ha hleaves)).trans h) rfl

end Best

end Koalisi.Lib.Sweeps
