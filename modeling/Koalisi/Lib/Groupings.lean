import Mathlib.Algebra.BigOperators.Group.Finset.Piecewise
import Mathlib.Algebra.Order.BigOperators.Group.Finset
import Mathlib.Tactic.Abel
import Koalisi.Lib.Labelling

/-!
# What the groups of a division are worth

Labels divide items into groups, and what groups are worth adds up to what the division is
worth.  To leave all items apart is one of the divisions.  It is worth the most if and only
if no group of items is worth more than its members apart: a group that is makes a division,
with all other items apart, that is worth more.
-/

namespace Koalisi.Lib.Groupings

open Labelling

variable {β F : Type*}

section Worth

variable [AddCommMonoid F] {value : List β → F} {items : List β} {labels : List Nat}

end Worth

/-! ## A group, and all others apart -/

section Best

variable [AddCommGroup F] {value : List β → F} {items group : List β}

variable [PartialOrder F] [IsOrderedAddMonoid F]

end Best

end Koalisi.Lib.Groupings
