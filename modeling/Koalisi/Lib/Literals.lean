import Mathlib.Data.Nat.Cast.Defs

/-!
# Literals

A number from two on is a literal of any ring, by a proof that it is at least two.  Numbers that
are written in several modules get one proof here, so that a definition is the same term wherever
it stands.
-/

namespace Koalisi.Lib.Literals

scoped instance two : Nat.AtLeastTwo 2 := ⟨Nat.le_refl 2⟩

scoped instance ten : Nat.AtLeastTwo 10 := ⟨by decide⟩

scoped instance twentyFive : Nat.AtLeastTwo 25 := ⟨by decide⟩

scoped instance hundred : Nat.AtLeastTwo 100 := ⟨by decide⟩

end Koalisi.Lib.Literals
