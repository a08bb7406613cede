import Koalisi.Harness.Workflow
import Koalisi.Lib.Spellings

/-!
# Tokens

Roles and steps are written as tokens, `r1` and `s3_r1`.  The numbers in them are read by a lenient
reader, so what was read is printed again: a token is accepted if it is what would be printed.
-/

namespace Koalisi.Process

open Koalisi.Harness Koalisi.Lib.Spellings

/-! ## Printing and parsing -/

/-- The number of 8 bits that is spelt so. -/
def parseU8 (digits : List Char) : Option UInt8 := (parseUnsigned (2 ^ 8) digits).map Nat.toUInt8

def printColor (role : Role) : Option String := some ("r" ++ toString role)

def parseColor (token : String) : Option Role := do
  let digits ← ['r'].isPrefixOf? token.toList
  let index ← parseU8 digits
  if (toString index).toList = digits then some index else none

def printToken (step : Step) : String := "s" ++ toString step.bit ++ "_r" ++ toString step.role

def parseToken (token : String) : Option Step := do
  let (bitDigits, roleDigits) ← splitOnce ['_', 'r'] (← ['s'].isPrefixOf? token.toList)
  let bit ← parseU8 bitDigits
  let role ← parseU8 roleDigits
  if (toString bit).toList = bitDigits ∧ (toString role).toList = roleDigits then
    some { bit, role }
  else none

example : parseToken "s3_r1" = some ⟨3, 1⟩ ∧ parseToken "s03_r1" = none := by decide

/-! ## Spellings -/

theorem toList_toString (n : UInt8) : (toString n).toList = Nat.toDigits 10 n.toNat :=
  Nat.toList_repr

/-- A number is read as it is printed. -/
theorem parseU8_toString (n : UInt8) : parseU8 (toString n).toList = some n := by
  rw [parseU8, toList_toString, parseUnsigned_toDigits n.toNat_lt]
  exact congrArg some n.ofNat_toNat

theorem toList_printToken (step : Step) :
    (printToken step).toList =
      's' :: ((toString step.bit).toList ++ ['_', 'r'] ++ (toString step.role).toList) := by
  rw [printToken, String.toList_append, String.toList_append, String.toList_append]
  rfl

/-- A token is read as a role just when it is what the role is printed as. -/
theorem parseColor_iff (token : String) (role : Role) :
    parseColor token = some role ↔ printColor role = some token := by
  constructor
  · intro h
    obtain ⟨digits, hdigits, h⟩ := Option.bind_eq_some_iff.mp h
    obtain ⟨index, -, h⟩ := Option.bind_eq_some_iff.mp h
    split at h
    · next hcanonical =>
        cases h
        refine congrArg some (String.toList_inj.mp ?_)
        rw [String.toList_append, hcanonical]
        exact List.isPrefixOf?_eq_some_iff_append_eq.mp hdigits
    · cases h
  · intro h
    cases h
    have hdigits : ['r'].isPrefixOf? ("r" ++ toString role).toList =
        some (toString role).toList := by
      rw [List.isPrefixOf?_eq_some_iff_append_eq, String.toList_append]
      rfl
    refine Option.bind_eq_some_iff.mpr ⟨_, hdigits, ?_⟩
    refine Option.bind_eq_some_iff.mpr ⟨role, parseU8_toString role, ?_⟩
    exact if_pos rfl

/-- A token is read as a step just when it is what the step is printed as. -/
theorem parseToken_iff (token : String) (step : Step) :
    parseToken token = some step ↔ token = printToken step := by
  constructor
  · intro h
    obtain ⟨body, hbody, h⟩ := Option.bind_eq_some_iff.mp h
    obtain ⟨⟨bitDigits, roleDigits⟩, hsplit, h⟩ := Option.bind_eq_some_iff.mp h
    obtain ⟨bit, -, h⟩ := Option.bind_eq_some_iff.mp h
    obtain ⟨role, -, h⟩ := Option.bind_eq_some_iff.mp h
    split at h
    · next hcanonical =>
        cases h
        refine String.toList_inj.mp ?_
        rw [toList_printToken, hcanonical.1, hcanonical.2, append_of_splitOnce hsplit]
        exact (List.isPrefixOf?_eq_some_iff_append_eq.mp hbody).symm
    · cases h
  · rintro rfl
    have hbody : ['s'].isPrefixOf? (printToken step).toList =
        some ((toString step.bit).toList ++ ['_', 'r'] ++ (toString step.role).toList) := by
      rw [List.isPrefixOf?_eq_some_iff_append_eq, toList_printToken]
      rfl
    -- there is no separator among the digits of the bit
    have hbit : '_' ∉ (toString step.bit).toList := by
      rw [toList_toString]
      exact Nat.underscore_not_in_toDigits
    refine Option.bind_eq_some_iff.mpr ⟨_, hbody, ?_⟩
    refine Option.bind_eq_some_iff.mpr ⟨_, splitOnce_append hbit, ?_⟩
    refine Option.bind_eq_some_iff.mpr ⟨step.bit, parseU8_toString step.bit, ?_⟩
    refine Option.bind_eq_some_iff.mpr ⟨step.role, parseU8_toString step.role, ?_⟩
    exact if_pos ⟨rfl, rfl⟩

/-- **Tokens are canonical.**  A string is read as a step or as a role if it is the token of it, and
nothing else is accepted. -/
theorem tokens_canonical (token : String) :
    (∀ step, parseToken token = some step ↔ token = printToken step) ∧
      ∀ role, parseColor token = some role ↔ printColor role = some token := by
  constructor
  · intro step
    exact parseToken_iff token step
  · intro role
    exact parseColor_iff token role

end Koalisi.Process
