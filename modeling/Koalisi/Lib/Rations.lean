import Mathlib.Data.List.DropRight

/-!
# So many between two marks

Some events of a log are marks, and some count.  The log is *rationed* if no part of it that
has no mark has more than a certain number of events that count.  It is enough to look at the
events since the last mark, each time one is added.
-/

namespace Koalisi.Lib

variable {α : Type} (mark counts : α → Bool)

/-- No part of the log without a mark has more events that count. -/
def Rationed (most : Nat) (log : List α) : Prop :=
  ∀ part, part <:+: log → (∀ e ∈ part, mark e = false) → part.countP counts ≤ most

/-- How many events count since the last mark. -/
def sinceMark (log : List α) : Nat := (log.rtakeWhile fun e ↦ !mark e).countP counts

variable {mark counts} {log part : List α} {e : α} {most : Nat}

theorem sinceMark_nil : sinceMark mark counts [] = 0 := by
  rw [sinceMark, List.rtakeWhile_nil]
  rfl

theorem sinceMark_concat_mark (h : mark e = true) : sinceMark mark counts (log ++ [e]) = 0 := by
  rw [sinceMark, List.rtakeWhile_concat_neg _ _ _ (by rw [h]; exact Bool.false_ne_true)]
  rfl

theorem sinceMark_concat (h : mark e = false) : sinceMark mark counts (log ++ [e]) =
    sinceMark mark counts log + if counts e then 1 else 0 := by
  rw [sinceMark, List.rtakeWhile_concat_pos _ _ _ (by rw [h]; rfl), List.countP_append,
    List.countP_singleton]
  rfl

/-- A part at the end of the log that has no mark is behind the last mark. -/
theorem countP_le_sinceMark (hpart : part <:+ log) (hmark : ∀ e ∈ part, mark e = false) :
    part.countP counts ≤ sinceMark mark counts log := by
  induction log using List.reverseRecOn generalizing part with
  | nil =>
      rw [List.suffix_nil.mp hpart]
      exact Nat.zero_le _
  | append_singleton log e ih =>
      obtain rfl | ⟨front, rfl, hfront⟩ := List.suffix_concat_iff.mp hpart
      · exact Nat.zero_le _
      · have he : mark e = false := hmark e (List.mem_append_right _ List.mem_cons_self)
        have hle := ih hfront fun e' he' ↦ hmark e' (List.mem_append_left _ he')
        rw [sinceMark_concat he, List.countP_append, List.countP_singleton]
        exact Nat.add_le_add_right hle _

/-- How a count changes when one of the elements does. -/
theorem countP_set_add {p : α → Bool} {l : List α} {i : Nat} {a b : α}
    (h : l[i]? = some a) :
    (l.set i b).countP p + (if p a then 1 else 0) = l.countP p + if p b then 1 else 0 := by
  obtain ⟨hi, rfl⟩ := List.getElem?_eq_some_iff.mp h
  have hle : (if p l[i] then 1 else 0) ≤ l.countP p := List.boole_getElem_le_countP hi
  rw [List.countP_set hi]
  omega

namespace Rationed

theorem nil : Rationed mark counts most [] := by
  intro part hpart _
  rw [List.infix_nil.mp hpart]
  exact Nat.zero_le _

/-- One more event. -/
theorem concat (h : Rationed mark counts most log)
    (hsince : sinceMark mark counts (log ++ [e]) ≤ most) :
    Rationed mark counts most (log ++ [e]) := by
  intro part hpart hmark
  rcases List.infix_concat_iff.mp hpart with hsuffix | hinfix
  · exact le_trans (countP_le_sinceMark hsuffix hmark) hsince
  · exact h part hinfix hmark

end Rationed

end Koalisi.Lib
