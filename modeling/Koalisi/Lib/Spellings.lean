import Mathlib.Data.List.Basic

/-!
# Spellings

A reader of numerals below a bound is lenient: a number may have a plus sign in front, and zeros.
So a number has many spellings, of which one is printed.  A reader that is to accept no other has
to print what it read and compare.

A string is split at the first separator in it.  What was joined is split the same way if the
separator does not start earlier, inside of the first part.
-/

namespace Koalisi.Lib.Spellings

/-! ## Numerals -/

/-- The value of a decimal digit. -/
def digitValue (c : Char) : Option Nat := if c.isDigit then some (c.toNat - '0'.toNat) else none

/-- The number that digits go on to, unless it gets to the bound. -/
def readDigits (bound : Nat) : Nat → List Char → Option Nat
  | n, [] => some n
  | n, c :: cs => do
      let d ← digitValue c
      if 10 * n + d < bound then readDigits bound (10 * n + d) cs else none

/-- The number below a bound that is spelt so, with or without a plus sign. -/
def parseUnsigned (bound : Nat) : List Char → Option Nat
  | [] => none
  | ['+'] | ['-'] => none
  | '+' :: digits => readDigits bound 0 digits
  | digits => readDigits bound 0 digits

/-- A number goes up by its digits. -/
theorem le_ofDigitChars (n : Nat) (digits : List Char) : n ≤ Nat.ofDigitChars 10 digits n := by
  induction digits generalizing n with
  | nil => exact Nat.le_of_eq Nat.ofDigitChars_nil.symm
  | cons c cs ih =>
      rw [Nat.ofDigitChars_cons]
      refine Nat.le_trans ?_ (ih _)
      omega

/-- Digits are read if the number that they spell is below the bound. -/
theorem readDigits_eq {bound n : Nat} {digits : List Char} (hdigits : ∀ c ∈ digits, c.isDigit)
    (h : Nat.ofDigitChars 10 digits n < bound) :
    readDigits bound n digits = some (Nat.ofDigitChars 10 digits n) := by
  induction digits generalizing n with
  | nil => rw [readDigits, Nat.ofDigitChars_nil]
  | cons c cs ih =>
      rw [Nat.ofDigitChars_cons] at h ⊢
      have hlt := Nat.lt_of_le_of_lt (le_ofDigitChars _ cs) h
      have hc : digitValue c = some (c.toNat - '0'.toNat) :=
        if_pos (hdigits c List.mem_cons_self)
      rw [readDigits, hc]
      exact (if_pos hlt).trans (ih (fun c' hc' ↦ hdigits c' (List.mem_cons_of_mem c hc')) h)

/-- What starts with a digit has no sign. -/
theorem parseUnsigned_cons {bound : Nat} {c : Char} (hc : c.isDigit) (cs : List Char) :
    parseUnsigned bound (c :: cs) = readDigits bound 0 (c :: cs) := by
  have hplus : c ≠ '+' := by
    rintro rfl
    exact absurd hc (by decide)
  have hminus : c ≠ '-' := by
    rintro rfl
    exact absurd hc (by decide)
  rw [parseUnsigned] <;> simp [hplus, hminus]

/-- What is printed is read. -/
theorem parseUnsigned_toDigits {bound n : Nat} (h : n < bound) :
    parseUnsigned bound (Nat.toDigits 10 n) = some n := by
  have hdigits : ∀ c ∈ Nat.toDigits 10 n, c.isDigit := fun c hc ↦
    Nat.isDigit_of_mem_toDigits (by decide) (by decide) hc
  have hread : readDigits bound 0 (Nat.toDigits 10 n) = some n := by
    have hbelow : Nat.ofDigitChars 10 (Nat.toDigits 10 n) 0 < bound := by
      rwa [Nat.ofDigitChars_ten_toDigits]
    rw [readDigits_eq hdigits hbelow, Nat.ofDigitChars_ten_toDigits]
  cases hn : Nat.toDigits 10 n with
  | nil => exact absurd hn Nat.toDigits_ne_nil
  | cons c cs =>
      rw [hn] at hdigits hread
      rw [parseUnsigned_cons (hdigits c List.mem_cons_self), hread]

example : parseUnsigned (2 ^ 8) "+007".toList = some 7 := by decide

/-! ## Separators -/

section Separators

variable {α : Type} [BEq α]

/-- What stands before the first separator, and what stands behind it. -/
def splitOnce (separator : List α) : List α → Option (List α × List α)
  | [] => (separator.isPrefixOf? []).map ([], ·)
  | a :: l =>
      match separator.isPrefixOf? (a :: l) with
      | some rest => some ([], rest)
      | none => (splitOnce separator l).map fun parts ↦ (a :: parts.1, parts.2)

variable [LawfulBEq α] {separator l before after : List α}

/-- The parts that a string is split into make it up. -/
theorem append_of_splitOnce (h : splitOnce separator l = some (before, after)) :
    before ++ separator ++ after = l := by
  induction l generalizing before with
  | nil =>
      obtain ⟨rest, hrest, hparts⟩ := Option.map_eq_some_iff.mp h
      cases hparts
      exact List.isPrefixOf?_eq_some_iff_append_eq.mp hrest
  | cons a l ih =>
      rw [splitOnce] at h
      split at h
      · next rest hrest =>
          cases h
          exact List.isPrefixOf?_eq_some_iff_append_eq.mp hrest
      · obtain ⟨⟨before', after'⟩, hsplit, hparts⟩ := Option.map_eq_some_iff.mp h
        cases hparts
        exact congrArg (a :: ·) (ih hsplit)

/-- A string is split where it was joined, if the separator does not begin in the first part. -/
theorem splitOnce_append {x : α} (h : x ∉ before) :
    splitOnce (x :: separator) (before ++ x :: separator ++ after) = some (before, after) := by
  induction before with
  | nil =>
      have hfirst : (x :: separator).isPrefixOf? (x :: (separator ++ after)) = some after :=
        List.isPrefixOf?_eq_some_iff_append_eq.mpr rfl
      change splitOnce _ (x :: (separator ++ after)) = _
      rw [splitOnce, hfirst]
  | cons a before ih =>
      have hne : ¬ x = a := fun heq ↦ h (heq ▸ List.mem_cons_self)
      have hlater : (x :: separator).isPrefixOf? (a :: (before ++ x :: separator ++ after)) =
          none := by
        rw [List.isPrefixOf?, if_neg]
        rwa [beq_iff_eq]
      change splitOnce _ (a :: (before ++ x :: separator ++ after)) = _
      rw [splitOnce, hlater, ih fun hx ↦ h (List.mem_cons_of_mem a hx)]
      rfl

end Separators

end Koalisi.Lib.Spellings
