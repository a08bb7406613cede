import Koalisi.Algorithms.Trajectory

/-!
# Structures stand for partitions

The search works on labels, and a structure is compared with others by them.  That is sound
because labels in canonical form and set partitions of the agents are the same: two
assignments have the same canonical form just if they put the same agents together, and the
blocks of a canonical form divide the agents as its labels do.

The seeds of the search are such forms, too, and their blocks have the sizes of a shape, in
whatever order the agents have been put into them.
-/

namespace Koalisi.Algorithms

open Koalisi.Lib Koalisi.Lib.Labelling

variable {F : Type}

/-- The blocks of a canonical assignment are those of its labels. -/
theorem blocks_eq {s : CoalitionStructure F} (h : Canonical s.assignment) :
    s.blocks = some (blocksOf s.assignment) :=
  assignmentBlocks_eq h

/-- **Canonical assignments represent partitions.**  An assignment in canonical form is its own
canonical form; two assignments have the same one just if they put the same agents together; and
its blocks are non-empty ascending lists, which divide the agents in such a way that two of them
are in one block just if they have the same label. -/
theorem canonical_assignments_represent_partitions (assignment : List Nat) (fitness : F) :
    canonicalize (canonicalize assignment) = canonicalize assignment ∧
    (∀ other : List Nat,
      canonicalize assignment = canonicalize other ↔ SameBlocks assignment other) ∧
    ∃ blocks, CoalitionStructure.blocks ⟨canonicalize assignment, fitness⟩ = some blocks ∧
      Divides assignment.length blocks ∧
      ∀ i < assignment.length, ∀ j < assignment.length,
        (∃ members ∈ blocks, i ∈ members ∧ j ∈ members) ↔
          (canonicalize assignment)[i]? = (canonicalize assignment)[j]? := by
  have hcanonical : Canonical (canonicalize assignment) := canonical_relabel assignment
  have hlen : (canonicalize assignment).length = assignment.length := length_relabel assignment
  refine ⟨hcanonical.relabel_eq, fun other ↦ relabel_eq_iff, _, blocks_eq hcanonical, ?_, ?_⟩
  · have hdivides := hcanonical.divides
    rwa [hlen] at hdivides
  · intro i hi j _
    exact mem_same_block_iff (hlen ▸ hi)

/-- Two ways to write down one partition, and another partition. -/
example : canonicalize [2, 2, 5, 2] = [0, 0, 1, 0] ∧
    canonicalize [7, 7, 0, 7] = canonicalize [2, 2, 5, 2] ∧
    canonicalize [2, 5, 5, 2] ≠ canonicalize [2, 2, 5, 2] := by decide

/-- What `blocks` tells of an assignment that realises a shape. -/
theorem Realises.blocks {n : Nat} {shape : IntegerPartition} {assignment : List Nat}
    (h : Realises n shape assignment) : ∃ blocks, assignmentBlocks assignment = some blocks ∧
      Divides n blocks ∧ (blocks.map List.length).Perm shape :=
  ⟨_, assignmentBlocks_eq h.canonical, h.length ▸ h.canonical.divides, h.sizes⟩

/-- **The seeds realise every shape in turn.**  From every state of the generator there is a seed
for each particle: an assignment of all agents whose blocks have just the sizes of the shape that
the particle is at, when it goes around through all integer partitions.  So it is with every order
in which the agents could be put into the blocks. -/
theorem seeds_realise_shapes (n population : Nat) (rng : SplitMix64) :
    (∃ seeds rng', (seedAssignments n population).run rng = some (seeds, rng') ∧
      seeds.length = population ∧
      ∀ p < population, ∃ shape assignment,
        (generateIntegerPartitions n)[p % (generateIntegerPartitions n).length]? = some shape ∧
        seeds[p]? = some assignment ∧ assignment.length = n ∧
        ∃ blocks, assignmentBlocks assignment = some blocks ∧ Divides n blocks ∧
          (blocks.map List.length).Perm shape) ∧
    ∀ shape ∈ generateIntegerPartitions n, ∀ perm : List Nat, perm.Perm (List.range n) →
      ∃ assignment, cut n shape perm = some assignment ∧
        Realises n shape (canonicalize assignment) := by
  refine ⟨?_, fun shape hshape perm hperm ↦ Realises.of_cut hshape hperm⟩
  obtain ⟨seeds, rng', hrun, hseeds⟩ := seedAssignments_yields n population rng
  have hlen : seeds.length = population := hseeds.length_eq.symm.trans List.length_range
  refine ⟨seeds, rng', hrun, hlen, fun p hp ↦ ?_⟩
  have hseed := (List.forall₂_iff_get.mp hseeds).2 p (by rwa [List.length_range]) (by rwa [hlen])
  rw [List.get_eq_getElem, List.get_eq_getElem, List.getElem_range] at hseed
  obtain ⟨shape, hshape, hrealises⟩ := hseed
  exact ⟨shape, seeds[p], hshape, List.getElem?_eq_getElem (by rwa [hlen]), hrealises.length,
    hrealises.blocks⟩

end Koalisi.Algorithms
