import Mathlib.Data.Nat.Bitwise

/-!
# Sets of bits in a machine word

A 32-bit word is a set of bit numbers below 32.  A word with a single bit is made by a
shift, sets are joined by `|||`, and `&&&` with a single bit asks for membership.
-/

namespace Koalisi.Lib.Masks

/-- Whether a bit is in the mask. -/
abbrev Holds (mask : UInt32) (b : Nat) : Bool := mask.toNat.testBit b

/-- How many bits a mask holds. -/
def countOnes (mask : UInt32) : Nat := (List.range 32).countP (Holds mask)

variable {mask mask' : UInt32} {b : Nat}

theorem lt_of_holds (h : Holds mask b) : b < 32 := by
  by_contra hb
  have hlt : mask.toNat < 2 ^ b :=
    Nat.lt_of_lt_of_le mask.toNat_lt (Nat.pow_le_pow_right (by decide) (Nat.le_of_not_lt hb))
  rw [Holds, Nat.testBit_eq_false_of_lt hlt] at h
  cases h

@[simp] theorem holds_zero : Holds 0 b = false := Nat.zero_testBit b

@[simp] theorem holds_or : Holds (mask ||| mask') b = (Holds mask b || Holds mask' b) := by
  rw [Holds, UInt32.toNat_or, Nat.testBit_or]

@[simp] theorem holds_and : Holds (mask &&& mask') b = (Holds mask b && Holds mask' b) := by
  rw [Holds, UInt32.toNat_and, Nat.testBit_and]

theorem toNat_single {c : UInt32} (hc : c.toNat < 32) : (1 <<< c : UInt32).toNat = 2 ^ c.toNat := by
  have hlt : 2 ^ c.toNat < 2 ^ 32 := Nat.pow_lt_pow_right (by decide) hc
  rw [UInt32.toNat_shiftLeft, Nat.mod_eq_of_lt hc, UInt32.toNat_one, Nat.one_shiftLeft,
    Nat.mod_eq_of_lt hlt]

/-- A mask with a single bit. -/
theorem holds_single {c : UInt32} (hc : c.toNat < 32) :
    Holds (1 <<< c) b = decide (c.toNat = b) := by
  rw [Holds, toNat_single hc, Nat.testBit_two_pow]

/-- Masks with the same bits are the same. -/
theorem ext (h : ∀ b, Holds mask b = Holds mask' b) : mask = mask' :=
  UInt32.toNat.inj (Nat.eq_of_testBit_eq h)

theorem eq_zero_iff : mask = 0 ↔ ∀ b, Holds mask b = false := by
  constructor
  · rintro rfl b
    exact holds_zero
  · exact fun h ↦ ext fun b ↦ (h b).trans holds_zero.symm

/-- Membership asked by the intersection with a single bit. -/
theorem and_single_ne_zero {c : UInt32} (hc : c.toNat < 32) :
    mask &&& 1 <<< c ≠ 0 ↔ Holds mask c.toNat := by
  rw [Ne, eq_zero_iff]
  constructor
  · intro h
    by_contra hholds
    refine h fun b ↦ ?_
    rw [holds_and, holds_single hc]
    by_cases hb : c.toNat = b
    · rw [← hb, Bool.eq_false_of_not_eq_true hholds, Bool.false_and]
    · rw [decide_eq_false hb, Bool.and_false]
  · intro h hzero
    have := hzero c.toNat
    rw [holds_and, holds_single hc, h, decide_eq_true rfl] at this
    cases this

@[simp] theorem countOnes_zero : countOnes 0 = 0 :=
  List.countP_eq_zero.mpr fun b _ ↦ by rw [holds_zero]; exact Bool.false_ne_true

theorem countOnes_mono (h : ∀ b, Holds mask b → Holds mask' b) : countOnes mask ≤ countOnes mask' :=
  List.countP_mono_left fun b _ ↦ h b

theorem countOnes_and_le : countOnes (mask &&& mask') ≤ countOnes mask := by
  refine countOnes_mono fun b h ↦ ?_
  rw [holds_and] at h
  exact (Bool.and_eq_true_iff.mp h).1

/-- The bits of two masks are those of one, those of the other, and not both. -/
theorem countOnes_or_add_and :
    countOnes (mask ||| mask') + countOnes (mask &&& mask') = countOnes mask + countOnes mask' := by
  unfold countOnes
  induction List.range 32 with
  | nil => rfl
  | cons b bs ih =>
      rw [List.countP_cons, List.countP_cons, List.countP_cons, List.countP_cons, holds_or,
        holds_and]
      cases Holds mask b with
      | true => cases Holds mask' b <;> simp <;> omega
      | false => cases Holds mask' b <;> simp <;> omega

/-- One more bit counts for one more at most. -/
theorem countOnes_or_single_le {c : UInt32} (hc : c.toNat < 32) :
    countOnes (mask ||| 1 <<< c) ≤ countOnes mask + 1 := by
  have hone : countOnes (1 <<< c) = (List.range 32).count c.toNat :=
    List.countP_congr fun b _ ↦ by rw [holds_single hc, decide_eq_true_iff, beq_iff_eq, eq_comm]
  rw [List.nodup_range.count, if_pos (List.mem_range.mpr hc)] at hone
  have hsum := @countOnes_or_add_and mask (1 <<< c)
  omega

/-- A mask that holds every bit of a universe counts them all. -/
theorem le_countOnes {n : Nat} (hn : n ≤ 32) (h : ∀ b < n, Holds mask b) : n ≤ countOnes mask := by
  have hall : (List.range n).countP (Holds mask) = (List.range n).length :=
    List.countP_eq_length.mpr fun b hb ↦ h b (List.mem_range.mp hb)
  rw [List.length_range] at hall
  exact hall.symm.trans_le (List.range_sublist.mpr hn).countP_le

/-- The bits of a mask of a universe are counted within it. -/
theorem countOnes_eq_countP_range {n : Nat} (hn : n ≤ 32) (h : ∀ b, Holds mask b → b < n) :
    countOnes mask = (List.range n).countP (Holds mask) := by
  obtain ⟨m, hm⟩ := Nat.exists_eq_add_of_le hn
  have hrest : ((List.range m).map (n + ·)).countP (Holds mask) = 0 := by
    refine List.countP_eq_zero.mpr fun b hb hholds ↦ ?_
    obtain ⟨i, -, rfl⟩ := List.mem_map.mp hb
    exact Nat.not_le_of_lt (h _ hholds) (Nat.le_add_right n i)
  rw [countOnes, hm, List.range_add, List.countP_append, hrest, Nat.add_zero]

theorem countOnes_le : countOnes mask ≤ 32 :=
  List.countP_le_length.trans_eq List.length_range

theorem countOnes_pos (h : mask ≠ 0) : 0 < countOnes mask := by
  refine Nat.pos_of_ne_zero fun hzero ↦ h (eq_zero_iff.mpr fun b ↦ ?_)
  by_contra hb
  rw [Bool.not_eq_false] at hb
  exact List.countP_eq_zero.mp hzero b (List.mem_range.mpr (lt_of_holds hb)) hb

/-- A mask that holds more bits than another, and among them all of its, counts for more. -/
theorem countOnes_lt (hsub : ∀ b, Holds mask b → Holds mask' b) (hb : Holds mask' b)
    (hb' : ¬Holds mask b) : countOnes mask < countOnes mask' := by
  rw [countOnes, countOnes]
  obtain ⟨front, back, heq⟩ := List.append_of_mem (List.mem_range.mpr (lt_of_holds hb))
  have hle : ∀ l : List Nat, l.countP (Holds mask) ≤ l.countP (Holds mask') :=
    fun l ↦ List.countP_mono_left fun c _ hc ↦ hsub c hc
  rw [heq, List.countP_append, List.countP_append, List.countP_cons_of_neg hb',
    List.countP_cons_of_pos hb]
  exact Nat.add_lt_add_of_le_of_lt (hle front) (Nat.lt_succ_of_le (hle back))

theorem and_eq_left_iff : mask &&& mask' = mask ↔ ∀ b, Holds mask b → Holds mask' b := by
  constructor
  · intro h b hb
    rw [← h, holds_and, Bool.and_eq_true] at hb
    exact hb.2
  · intro h
    refine ext fun b ↦ ?_
    rw [holds_and]
    cases hb : Holds mask b with
    | true => rw [h b hb, Bool.and_true]
    | false => rw [Bool.false_and]

/-- An intersection that is not smaller is the mask itself. -/
theorem countOnes_and_eq_iff :
    countOnes (mask &&& mask') = countOnes mask ↔ mask &&& mask' = mask := by
  constructor
  · intro h
    rw [and_eq_left_iff]
    intro b hb
    by_contra hb'
    refine absurd h (Nat.ne_of_lt (countOnes_lt (fun c hc ↦ ?_) hb ?_))
    · rw [holds_and, Bool.and_eq_true] at hc
      exact hc.1
    · rw [holds_and, Bool.and_eq_true]
      exact fun hand ↦ hb' hand.2
  · intro h
    rw [h]

/-- A mask that holds so many bits holds one. -/
theorem exists_holds (h : 0 < countOnes mask) : ∃ b, Holds mask b := by
  obtain ⟨b, -, hb⟩ := List.countP_pos_iff.mp h
  exact ⟨b, hb⟩

/-- The union of masks holds the bits of each. -/
theorem holds_foldl_or (masks : List UInt32) (start : UInt32) :
    Holds (masks.foldl (· ||| ·) start) b = (Holds start b || masks.any (Holds · b)) := by
  induction masks generalizing start with
  | nil => rw [List.foldl_nil, List.any_nil, Bool.or_false]
  | cons mask masks ih => rw [List.foldl_cons, ih, holds_or, List.any_cons, Bool.or_assoc]

end Koalisi.Lib.Masks
