import Mathlib.Data.List.Induction
import Mathlib.Order.Lattice
import Koalisi.Algorithms.Partitions
import Koalisi.Lib.Labelling
import Koalisi.Lib.Returns
import Koalisi.Lib.SplitMix

/-!
# Population search

A swarm of particles moves through the ways to divide the agents into coalitions.  The
particles start in the shapes of the integer partitions; each agent of a moving particle
copies its block from the best structure of all, from the best of the particle, or draws
one.  What the search returns is the best structure and how it came to be: each structure
that was better than all before it.

Every index is looked up, and a lookup that fails stops the search.  Values are of any
linear order with an addition, and the probabilities of any type with the operations; no
law of arithmetic is used.
-/

namespace Koalisi.Algorithms

open Koalisi.Lib
open Koalisi.Lib.Labelling

variable {A F P : Type}

/-! ## Structures -/

/-- A division of the agents: a block number for each, and the value of the blocks. -/
structure CoalitionStructure (F : Type) where
  assignment : List Nat
  fitness : F
deriving DecidableEq, Repr

structure PopulationConfig (P : Type) where
  population : Nat
  iterations : Nat
  pGbest : P
  pPbest : P
  seed : UInt64

structure SearchOutcome (F : Type) where
  best : CoalitionStructure F
  lineage : List (CoalitionStructure F)
  iterationsRun : Nat
deriving DecidableEq, Repr

/-- Number the blocks in the order of their first members. -/
def canonicalize (assignment : List Nat) : List Nat := relabel assignment

/-- The blocks that are not empty, as agent indices. -/
def assignmentBlocks (assignment : List Nat) : Option (List (List Nat)) :=
  match assignment.max? with
  | none => some []
  | some maxId => do
      let blocks ← ((List.range assignment.length).zip assignment).foldlM
        (fun blocks slot ↦ push blocks slot.2 slot.1) (List.replicate (maxId + 1) [])
      return blocks.filter (!·.isEmpty)

/-- The sum of the values of the blocks. -/
def fitness [Add F] [Zero F] (agents : List A) (value : List A → F) (assignment : List Nat) :
    Option F := do
  let blocks ← assignmentBlocks assignment
  let values ← blocks.mapM fun block ↦ do
    let views ← block.mapM fun i ↦ agents[i]?
    return value views
  return values.foldl (· + ·) 0

/-! ## Seeds -/

/-- Exchange two items. -/
def swap (perm : List Nat) (i j : Nat) : Option (List Nat) := do
  let a ← perm[i]?
  let b ← perm[j]?
  return (perm.set i b).set j a

/-- A random order of the first `n` numbers, from the last place down. -/
def shuffle (n : Nat) : Draw (List Nat) :=
  (List.range' 1 (n - 1)).reverse.foldlM (fun perm i ↦ do
    let j ← SplitMix64.genIndex (i + 1)
    StateT.lift (swap perm i j)) (List.range n)

/-- Give the next agent of the permutation to a block. -/
def takeNext (perm : List Nat) (blockId : Nat) (slot : List Nat × Nat) : Option (List Nat × Nat) :=
  do
    let agent ← perm[slot.2]?
    if agent < slot.1.length then some (slot.1.set agent blockId, slot.2 + 1) else none

/-- Cut a permutation into blocks of the sizes of a shape. -/
def cut (n : Nat) (shape : IntegerPartition) (perm : List Nat) : Option (List Nat) := do
  let slot ← shape.zipIdx.foldlM (fun slot part ↦
    (List.range part.1).foldlM (fun slot _ ↦ takeNext perm part.2 slot) slot)
    (List.replicate n 0, 0)
  return slot.1

/-- One assignment for each particle, through the shapes in turn. -/
def seedAssignments (n population : Nat) : Draw (List (List Nat)) := do
  let shapes := generateIntegerPartitions n
  (List.range population).mapM fun p ↦ do
    let shape ← StateT.lift shapes[p % shapes.length]?
    let perm ← shuffle n
    let assignment ← StateT.lift (cut n shape perm)
    return canonicalize assignment

/-! ## The swarm -/

/-- Where a particle is, and the best place where it has been. -/
structure Particle (F : Type) where
  current : List Nat
  pbest : CoalitionStructure F

/-- What the particles share: the best structure, and the best ones on the way to it.  The
candidates seen so far are kept for the proofs only. -/
structure Swarm (F : Type) where
  gbest : CoalitionStructure F
  lineage : List (CoalitionStructure F)
  evaluated : List (CoalitionStructure F)

section Search

variable [LinearOrder F] [Add F] [Zero F]
variable [NatCast P] [Div P] [Add P] [LT P] [DecidableLT P]

/-- A particle in its seed. -/
def seedParticle (agents : List A) (value : List A → F) (assignment : List Nat) :
    Option (Particle F) := do
  let fit ← fitness agents value assignment
  return { current := assignment, pbest := { assignment := assignment, fitness := fit } }

/-- The best of the personal bests; the first one when there are several. -/
def initialBest (particles : List (Particle F)) : Option (CoalitionStructure F) := do
  let first ← particles[0]?
  return (particles.drop 1).foldl (fun gbest particle ↦
    if particle.pbest.fitness > gbest.fitness then particle.pbest else gbest) first.pbest

/-- The next block of an agent. -/
def nextBlock (cfg : PopulationConfig P) (gbest pbest : CoalitionStructure F) (maxId i : Nat) :
    Draw Nat := do
  let r ← SplitMix64.nextUnit P
  if r < cfg.pGbest then StateT.lift gbest.assignment[i]?
  else if r < cfg.pGbest + cfg.pPbest then StateT.lift pbest.assignment[i]?
  else SplitMix64.genIndex (maxId + 2)

/-- Move one particle, and keep what is better than before. -/
def moveParticle (agents : List A) (value : List A → F) (cfg : PopulationConfig P)
    (particle : Particle F) (swarm : Swarm F) : Draw (Particle F × Swarm F) := do
  let maxId := particle.current.max?.getD 0
  let next ← (List.range agents.length).mapM (nextBlock cfg swarm.gbest particle.pbest maxId)
  let next := canonicalize next
  let fit ← StateT.lift (fitness agents value next)
  let candidate : CoalitionStructure F := { assignment := next, fitness := fit }
  let pbest := if fit > particle.pbest.fitness then candidate else particle.pbest
  let swarm := { swarm with evaluated := swarm.evaluated ++ [candidate] }
  let swarm :=
    if fit > swarm.gbest.fitness then
      { swarm with gbest := candidate, lineage := swarm.lineage ++ [candidate] }
    else swarm
  return ({ current := next, pbest := pbest }, swarm)

/-- Move all particles in turn. -/
def runIteration (agents : List A) (value : List A → F) (cfg : PopulationConfig P)
    (state : List (Particle F) × Swarm F) : Draw (List (Particle F) × Swarm F) :=
  state.1.foldlM (fun moved particle ↦ do
    let (particle, swarm) ← moveParticle agents value cfg particle moved.2
    return (moved.1 ++ [particle], swarm)) ([], state.2)

/-- The search from the first draw on. -/
def searchSwarm (agents : List A) (value : List A → F) (cfg : PopulationConfig P) :
    Draw (List (Particle F) × Swarm F) := do
  let seeds ← seedAssignments agents.length (max cfg.population 1)
  let particles ← StateT.lift (seeds.mapM (seedParticle agents value))
  let gbest ← StateT.lift (initialBest particles)
  let swarm : Swarm F :=
    { gbest := gbest, lineage := [gbest], evaluated := particles.map (·.pbest) }
  (List.range cfg.iterations).foldlM (fun state _ ↦ runIteration agents value cfg state)
    (particles, swarm)

/-- Search for a structure of high value.  Next to the outcome stand all candidates that
were evaluated. -/
def search (agents : List A) (value : List A → F) (cfg : PopulationConfig P) :
    Option (SearchOutcome F × List (CoalitionStructure F)) :=
  if agents.length = 0 then
    let best : CoalitionStructure F := { assignment := [], fitness := 0 }
    some ({ best := best, lineage := [best], iterationsRun := 0 }, [])
  else do
    let ((_, swarm), _) ← (searchSwarm agents value cfg).run { state := cfg.seed }
    return ({ best := swarm.gbest, lineage := swarm.lineage, iterationsRun := cfg.iterations },
      swarm.evaluated)

end Search

/-! ## What a fitness is -/

/-- The values of the blocks of an assignment, in the order of their numbers, added up. -/
def structureValue [Add F] [Zero F] (agents : List A) (value : List A → F)
    (assignment : List Nat) : F :=
  ((List.range (blockCount assignment)).map fun label ↦
    value (block agents assignment label)).foldl (· + ·) 0

/-- The blocks are those of the numbers that are given to an agent. -/
theorem assignmentBlocks_eq_filter (assignment : List Nat) :
    assignmentBlocks assignment = some (((List.range (blockCount assignment)).map
      (block (List.range assignment.length) assignment)).filter (!·.isEmpty)) := by
  unfold assignmentBlocks
  cases hmax : assignment.max? with
  | none =>
      rw [List.max?_eq_none_iff.mp hmax]
      rfl
  | some maxId =>
      have hcount : blockCount assignment = maxId + 1 := by rw [blockCount, hmax]; rfl
      have hslots : ∀ slot ∈ (List.range assignment.length).zip assignment, slot.2 < maxId + 1 :=
        fun slot hslot ↦ hcount ▸ lt_blockCount (List.of_mem_zip hslot).2
      have hempty : List.replicate (maxId + 1) [] =
          (List.range (maxId + 1)).map fun _ ↦ ([] : List Nat) := by
        rw [List.map_const', List.length_range]
      dsimp only
      rw [hempty, foldlM_push hslots, hcount]
      rfl

/-- A canonical assignment has a block for each number. -/
theorem assignmentBlocks_eq {assignment : List Nat} (h : Canonical assignment) :
    assignmentBlocks assignment = some ((List.range (blockCount assignment)).map
      (block (List.range assignment.length) assignment)) := by
  rw [assignmentBlocks_eq_filter]
  refine congrArg some (List.filter_eq_self.mpr fun members hmembers ↦ ?_)
  obtain ⟨label, hlabel, rfl⟩ := List.mem_map.mp hmembers
  have hmem : label ∈ assignment := h.mem_of_lt (List.mem_range.mp hlabel)
  rw [Bool.not_eq_true', List.isEmpty_eq_false_iff]
  exact block_ne_nil List.length_range hmem

theorem forall₂_range (agents : List A) :
    List.Forall₂ (fun i a ↦ agents[i]? = some a) (List.range agents.length) agents := by
  refine List.forall₂_iff_get.mpr ⟨List.length_range, fun i h₁ h₂ ↦ ?_⟩
  simp

/-- The fitness is the value of the agents in the blocks. -/
theorem fitness_of_blocks [Add F] [Zero F] {agents : List A} {assignment labels : List Nat}
    (value : List A → F) (hlen : assignment.length = agents.length)
    (h : assignmentBlocks assignment =
      some (labels.map (block (List.range assignment.length) assignment))) :
    fitness agents value assignment =
      some ((labels.map fun label ↦ value (block agents assignment label)).foldl (· + ·) 0) := by
  unfold fitness
  rw [h, Option.bind_eq_bind, Option.bind_some, hlen]
  have hviews : ∀ label, (block (List.range agents.length) assignment label).mapM
      (fun i ↦ agents[i]?) = some (block agents assignment label) := fun label ↦
    mapM_eq_some_of_forall₂ (forall₂_block (forall₂_range agents) assignment label)
  have hvalues : (labels.map (block (List.range agents.length) assignment)).mapM (fun block ↦ do
        let views ← block.mapM fun i ↦ agents[i]?
        return value views) = some (labels.map fun label ↦
          value (block agents assignment label)) := by
    refine mapM_eq_some_of_forall₂ ?_
    rw [List.forall₂_map_left_iff, List.forall₂_map_right_iff, List.forall₂_same]
    intro label _
    rw [hviews label]
    rfl
  rw [hvalues]
  rfl

/-- The fitness of a canonical assignment of all agents is the value of its blocks. -/
theorem fitness_eq [Add F] [Zero F] {agents : List A} {assignment : List Nat}
    (value : List A → F) (h : Canonical assignment) (hlen : assignment.length = agents.length) :
    fitness agents value assignment = some (structureValue agents value assignment) :=
  fitness_of_blocks value hlen (assignmentBlocks_eq h)

/-! ## Seeds are assignments of all agents -/

theorem swap_perm {perm : List Nat} {i j : Nat} (hi : i < perm.length) (hj : j < perm.length) :
    ∃ perm', swap perm i j = some perm' ∧ perm'.Perm perm := by
  refine ⟨(perm.set i perm[j]).set j perm[i], ?_, List.set_set_perm hi hj⟩
  unfold swap
  rw [List.getElem?_eq_getElem hi, List.getElem?_eq_getElem hj]
  rfl

/-- Shuffling only changes the order. -/
theorem shuffle_yields (n : Nat) : Yields (shuffle n) (·.Perm (List.range n)) := by
  refine Yields.foldlM (fun i hi perm hperm ↦ ?_) (List.Perm.refl _)
  rw [List.mem_reverse, List.mem_range'_1] at hi
  have hlen : perm.length = n := hperm.length_eq.trans List.length_range
  refine (SplitMix64.genIndex_yields (Nat.succ_pos i)).bind fun j hj ↦ ?_
  have hi' : i < perm.length := by omega
  have hj' : j < perm.length := by omega
  obtain ⟨perm', hswap, hperm'⟩ := swap_perm hi' hj'
  exact Yields.lift hswap (hperm'.trans hperm)

/-- There is a next agent as long as not all are placed. -/
theorem takeNext_eq {n blockId : Nat} {perm : List Nat} {slot : List Nat × Nat}
    (hperm : perm.Perm (List.range n)) (hlen : slot.1.length = n) (hpos : slot.2 < perm.length) :
    takeNext perm blockId slot = some (slot.1.set perm[slot.2] blockId, slot.2 + 1) := by
  have hagent : perm[slot.2] < slot.1.length := by
    rw [hlen]
    exact List.mem_range.mp (hperm.subset (List.getElem_mem hpos))
  unfold takeNext
  rw [List.getElem?_eq_getElem hpos, Option.bind_eq_bind, Option.bind_some, if_pos hagent]

/-- The loops over the sizes and over the places of a block are one loop over all labels. -/
theorem foldlM_parts {β : Type} (f : β → Nat → Option β) (parts : List (Nat × Nat)) (b : β) :
    parts.foldlM (fun b part ↦ (List.range part.1).foldlM (fun b _ ↦ f b part.2) b) b =
      (parts.flatMap fun part ↦ List.replicate part.1 part.2).foldlM f b := by
  have hblock : ∀ part : Nat × Nat, List.replicate part.1 part.2 =
      (List.range part.1).map fun _ ↦ part.2 := fun part ↦ by
    rw [List.map_const', List.length_range]
  rw [foldlM_flatMap]
  simp only [hblock, List.foldlM_map]

/-- Where the labels given so far are. -/
structure Placed (n : Nat) (perm front : List Nat) (slot : List Nat × Nat) : Prop where
  length : slot.1.length = n
  taken : slot.2 = front.length
  label (i : Nat) (h : i < perm.length) : i < front.length → slot.1[perm[i]]? = front[i]?

theorem Placed.next {n : Nat} {perm front : List Nat} {slot : List Nat × Nat}
    (h : Placed n perm front slot) (blockId : Nat) (hperm : perm.Perm (List.range n))
    (hlt : front.length < perm.length) :
    ∃ slot', takeNext perm blockId slot = some slot' ∧
      Placed n perm (front ++ [blockId]) slot' := by
  have hpos : slot.2 < perm.length := h.taken ▸ hlt
  have hnodup : perm.Nodup := hperm.nodup_iff.mpr List.nodup_range
  refine ⟨_, takeNext_eq hperm h.length hpos, ?_, ?_, fun i hi hlabel ↦ ?_⟩
  · rw [List.length_set, h.length]
  · rw [List.length_append, List.length_singleton, ← h.taken]
  · dsimp only
    rw [List.length_append, List.length_singleton] at hlabel
    by_cases hi' : i < front.length
    · have hne : perm[slot.2] ≠ perm[i] := fun heq ↦ by
        have hindex := (hnodup.getElem_inj_iff).mp heq
        rw [h.taken] at hindex
        omega
      rw [List.getElem?_set_ne hne, h.label i hi hi', List.getElem?_append_left hi']
    · obtain rfl : i = front.length := by omega
      have hagent : perm[front.length] < slot.1.length := by
        rw [h.length]
        exact List.mem_range.mp (hperm.subset (List.getElem_mem hi))
      simp only [h.taken]
      rw [List.getElem?_set_self hagent, List.getElem?_concat_length]

/-- A shape with room for all agents cuts a permutation of them to the end, and gives out as many
labels as the blocks have places. -/
theorem cut_eq {n : Nat} {shape perm : List Nat} (hshape : shape.sum = n)
    (hperm : perm.Perm (List.range n)) :
    ∃ assignment, cut n shape perm = some assignment ∧ assignment.length = n ∧
      assignment.Perm (labelsOf shape) := by
  have hlen : perm.length = n := hperm.length_eq.trans List.length_range
  have hlabels : (labelsOf shape).length = n := (length_labelsOf shape).trans hshape
  obtain ⟨slot, hslot, front, hfront, hplaced⟩ := exists_foldlM_rest
    (fun rest slot ↦ ∃ front, labelsOf shape = front ++ rest ∧ Placed n perm front slot)
    (f := fun (slot : List Nat × Nat) blockId ↦ takeNext perm blockId slot) (l := labelsOf shape)
    (b := (List.replicate n 0, 0))
    (by
      rintro blockId rest slot ⟨front, hsplit, hplaced⟩
      have hlt : front.length < perm.length := by
        rw [hlen, ← hlabels, hsplit, List.length_append, List.length_cons]
        omega
      obtain ⟨slot', hslot', hplaced'⟩ := hplaced.next blockId hperm hlt
      exact ⟨slot', hslot', front ++ [blockId], by rw [hsplit, List.append_assoc]; rfl, hplaced'⟩)
    ⟨[], rfl, List.length_replicate, rfl, fun i _ hi ↦ absurd hi (Nat.not_lt_zero i)⟩
  rw [List.append_nil] at hfront
  subst hfront
  refine ⟨slot.1, ?_, hplaced.length, ?_⟩
  · unfold cut
    rw [foldlM_parts fun (slot : List Nat × Nat) blockId ↦ takeNext perm blockId slot]
    change ((labelsOf shape).foldlM _ _ >>= fun slot : List Nat × Nat ↦ some slot.1) = some slot.1
    rw [hslot]
    rfl
  · have hall : (List.range n).map (fun i ↦ slot.1[i]?.getD 0) = slot.1 := by
      refine List.ext_getElem ?_ fun i hi hi' ↦ ?_
      · rw [List.length_map, List.length_range, hplaced.length]
      · rw [List.getElem_map, List.getElem_range, List.getElem?_eq_getElem hi', Option.getD_some]
    have hinOrder : perm.map (fun i ↦ slot.1[i]?.getD 0) = labelsOf shape := by
      refine List.ext_getElem ?_ fun i hi hi' ↦ ?_
      · rw [List.length_map, hlen, hlabels]
      · rw [List.length_map] at hi
        rw [List.getElem_map, hplaced.label i hi hi', List.getElem?_eq_getElem hi',
          Option.getD_some]
    have hreordered := hperm.map fun i ↦ slot.1[i]?.getD 0
    rw [hall, hinOrder] at hreordered
    exact hreordered.symm

/-- A canonical assignment of all agents, with blocks of the sizes of a shape. -/
structure Realises (n : Nat) (shape : IntegerPartition) (assignment : List Nat) : Prop where
  canonical : Canonical assignment
  length : assignment.length = n
  sizes : ((blocksOf assignment).map List.length).Perm shape

/-- Agents that are put into the blocks of a shape, in any order, realise it. -/
theorem Realises.of_cut {n : Nat} {shape : IntegerPartition}
    (hshape : shape ∈ generateIntegerPartitions n) {perm : List Nat}
    (hperm : perm.Perm (List.range n)) :
    ∃ assignment, cut n shape perm = some assignment ∧
      Realises n shape (canonicalize assignment) := by
  obtain ⟨assignment, hcut, hlen, hlabels⟩ :=
    cut_eq (sum_of_mem_generateIntegerPartitions hshape) hperm
  exact ⟨assignment, hcut, canonical_relabel assignment, (length_relabel assignment).trans hlen,
    sizes_relabel_perm hlabels (mem_generateIntegerPartitions.mp hshape).pos⟩

/-- The seeds realise the shapes in turn. -/
theorem seedAssignments_yields (n population : Nat) :
    Yields (seedAssignments n population) <| List.Forall₂ (fun p assignment ↦
      ∃ shape, (generateIntegerPartitions n)[p % (generateIntegerPartitions n).length]? =
        some shape ∧ Realises n shape assignment) (List.range population) := by
  refine Yields.mapM fun p _ ↦ ?_
  have hlt := Nat.mod_lt p (List.length_pos_of_ne_nil (generateIntegerPartitions_ne_nil n))
  refine (Yields.lift (P := fun shape ↦ shape ∈ generateIntegerPartitions n ∧
    (generateIntegerPartitions n)[p % (generateIntegerPartitions n).length]? = some shape)
    (List.getElem?_eq_getElem hlt)
    ⟨List.getElem_mem hlt, List.getElem?_eq_getElem hlt⟩).bind fun shape hshape ↦ ?_
  refine (shuffle_yields n).bind fun perm hperm ↦ ?_
  obtain ⟨assignment, hcut, hrealises⟩ := Realises.of_cut hshape.1 hperm
  refine (Yields.lift (P := (· = assignment)) hcut rfl).bind fun _ heq ↦ ?_
  rw [heq]
  exact Yields.pure ⟨shape, hshape.2, hrealises⟩

/-! ## The run -/

/-- The structure is in canonical form, divides all agents, and has the fitness that its
blocks are worth. -/
structure CoalitionStructure.Sound [Add F] [Zero F] (agents : List A) (value : List A → F)
    (s : CoalitionStructure F) : Prop where
  canonical : Canonical s.assignment
  length : s.assignment.length = agents.length
  fitness : s.fitness = structureValue agents value s.assignment

/-- The first best is one of the personal bests, and none is better. -/
theorem initialBest_eq [LinearOrder F] {particles : List (Particle F)} (h : particles ≠ []) :
    ∃ gbest, initialBest particles = some gbest ∧ (∃ p ∈ particles, p.pbest = gbest) ∧
      ∀ p ∈ particles, p.pbest.fitness ≤ gbest.fitness := by
  obtain ⟨first, rest, rfl⟩ := List.exists_cons_of_ne_nil h
  refine ⟨_, rfl, ?_⟩
  rw [List.drop_one, List.tail_cons]
  induction rest using List.reverseRecOn with
  | nil => exact ⟨⟨first, List.mem_cons_self, rfl⟩, List.forall_mem_singleton.mpr le_rfl⟩
  | append_singleton rest p ih =>
      obtain ⟨⟨q, hq, hbest⟩, hle⟩ := ih (List.cons_ne_nil _ _)
      rw [List.foldl_append, List.foldl_cons, List.foldl_nil, ← List.cons_append]
      split
      · rename_i hlt
        refine ⟨⟨p, List.mem_append_right _ (List.mem_singleton_self p), rfl⟩, ?_⟩
        exact List.forall_mem_append.mpr
          ⟨fun p' hp' ↦ (hle p' hp').trans hlt.le, List.forall_mem_singleton.mpr le_rfl⟩
      · rename_i hlt
        refine ⟨⟨q, List.mem_append_left _ hq, hbest⟩, ?_⟩
        exact List.forall_mem_append.mpr
          ⟨hle, List.forall_mem_singleton.mpr (le_of_not_gt hlt)⟩

section Run

variable [Add F] [Zero F] [NatCast P] [Div P] [Add P] [LT P] [DecidableLT P]
variable {agents : List A} {value : List A → F}

/-- A canonical assignment of all agents can be evaluated. -/
theorem seedParticle_eq {assignment : List Nat} (h : Canonical assignment)
    (hlen : assignment.length = agents.length) :
    ∃ particle, seedParticle agents value assignment = some particle ∧
      particle.pbest.Sound agents value := by
  refine ⟨⟨assignment, ⟨assignment, structureValue agents value assignment⟩⟩, ?_, h, hlen, rfl⟩
  unfold seedParticle
  rw [fitness_eq value h hlen]
  rfl

/-- The next block is looked up in structures of all agents. -/
theorem nextBlock_yields {cfg : PopulationConfig P} {gbest pbest : CoalitionStructure F}
    (hgbest : gbest.Sound agents value) (hpbest : pbest.Sound agents value) (maxId : Nat) {i : Nat}
    (hi : i < agents.length) : Yields (nextBlock cfg gbest pbest maxId i) fun _ ↦ True := by
  refine (SplitMix64.nextUnit_yields P).bind fun r _ ↦ ?_
  split
  · exact Yields.lift (List.getElem?_eq_getElem (hgbest.length ▸ hi)) trivial
  · split
    · exact Yields.lift (List.getElem?_eq_getElem (hpbest.length ▸ hi)) trivial
    · exact (SplitMix64.genIndex_yields (Nat.succ_pos _)).imp fun _ _ ↦ trivial

variable [LinearOrder F]

/-- What holds of the swarm between two moves. -/
structure Swarm.Sound (agents : List A) (value : List A → F) (swarm : Swarm F) : Prop where
  lineage : ∀ s ∈ swarm.lineage, s.Sound agents value
  ascending : swarm.lineage.Pairwise fun s t ↦ s.fitness < t.fitness
  last : swarm.lineage.getLast? = some swarm.gbest
  best : ∀ s ∈ swarm.lineage, s.fitness ≤ swarm.gbest.fitness
  evaluated : ∀ s ∈ swarm.evaluated, s.Sound agents value ∧ s.fitness ≤ swarm.gbest.fitness

theorem Swarm.Sound.gbest {swarm : Swarm F} (h : swarm.Sound agents value) :
    swarm.gbest.Sound agents value :=
  h.lineage _ (List.mem_of_getLast? h.last)

/-- A candidate that is not better changes nothing. -/
theorem Swarm.Sound.keep {swarm : Swarm F} (h : swarm.Sound agents value)
    {candidate : CoalitionStructure F} (hcandidate : candidate.Sound agents value)
    (hle : candidate.fitness ≤ swarm.gbest.fitness) :
    Sound agents value { swarm with evaluated := swarm.evaluated ++ [candidate] } where
  lineage := h.lineage
  ascending := h.ascending
  last := h.last
  best := h.best
  evaluated := List.forall_mem_append.mpr
    ⟨h.evaluated, List.forall_mem_singleton.mpr ⟨hcandidate, hle⟩⟩

/-- A better candidate becomes the best, above all before. -/
theorem Swarm.Sound.improve {swarm : Swarm F} (h : swarm.Sound agents value)
    {candidate : CoalitionStructure F} (hcandidate : candidate.Sound agents value)
    (hlt : swarm.gbest.fitness < candidate.fitness) :
    Sound agents value { gbest := candidate, lineage := swarm.lineage ++ [candidate],
                         evaluated := swarm.evaluated ++ [candidate] } where
  lineage := List.forall_mem_append.mpr ⟨h.lineage, List.forall_mem_singleton.mpr hcandidate⟩
  ascending := by
    refine List.pairwise_append.mpr ⟨h.ascending, List.pairwise_singleton _ _, ?_⟩
    intro s hs t ht
    rw [List.mem_singleton.mp ht]
    exact (h.best s hs).trans_lt hlt
  last := List.getLast?_concat
  best := List.forall_mem_append.mpr
    ⟨fun s hs ↦ (h.best s hs).trans hlt.le, List.forall_mem_singleton.mpr le_rfl⟩
  evaluated := List.forall_mem_append.mpr
    ⟨fun s hs ↦ ⟨(h.evaluated s hs).1, (h.evaluated s hs).2.trans hlt.le⟩,
      List.forall_mem_singleton.mpr ⟨hcandidate, le_rfl⟩⟩

/-- A move keeps the swarm as it should be, and so the personal best. -/
theorem moveParticle_yields (cfg : PopulationConfig P) {particle : Particle F} {swarm : Swarm F}
    (hparticle : particle.pbest.Sound agents value) (hswarm : swarm.Sound agents value) :
    Yields (moveParticle agents value cfg particle swarm) fun moved ↦
      moved.1.pbest.Sound agents value ∧ moved.2.Sound agents value := by
  refine (Yields.mapM fun i hi ↦ nextBlock_yields hswarm.gbest hparticle _
    (List.mem_range.mp hi)).bind fun next hnext ↦ ?_
  have hlen : (canonicalize next).length = agents.length :=
    (length_relabel next).trans (hnext.length_eq.symm.trans List.length_range)
  have hcanonical : Canonical (canonicalize next) := canonical_relabel next
  refine (Yields.lift (P := (· = structureValue agents value (canonicalize next)))
    (fitness_eq value hcanonical hlen) rfl).bind fun fit hfit ↦ ?_
  have hcandidate : CoalitionStructure.Sound agents value ⟨canonicalize next, fit⟩ :=
    ⟨hcanonical, hlen, hfit⟩
  refine Yields.pure ⟨?_, ?_⟩
  · dsimp only
    split
    · exact hcandidate
    · exact hparticle
  · dsimp only
    split
    · rename_i hlt
      exact hswarm.improve hcandidate hlt
    · rename_i hlt
      exact hswarm.keep hcandidate (le_of_not_gt hlt)

/-- So does an iteration. -/
theorem runIteration_yields (cfg : PopulationConfig P) {state : List (Particle F) × Swarm F}
    (hparticles : ∀ p ∈ state.1, p.pbest.Sound agents value)
    (hswarm : state.2.Sound agents value) :
    Yields (runIteration agents value cfg state) fun state ↦
      (∀ p ∈ state.1, p.pbest.Sound agents value) ∧ state.2.Sound agents value := by
  refine Yields.foldlM (fun particle hparticle moved hmoved ↦ ?_)
    ⟨fun _ hp ↦ absurd hp List.not_mem_nil, hswarm⟩
  refine (moveParticle_yields cfg (hparticles particle hparticle) hmoved.2).bind
    fun next hnext ↦ ?_
  exact Yields.pure ⟨List.forall_mem_append.mpr
    ⟨hmoved.1, List.forall_mem_singleton.mpr hnext.1⟩, hnext.2⟩

/-- The swarm is as it should be when the search ends. -/
theorem searchSwarm_yields (agents : List A) (value : List A → F) (cfg : PopulationConfig P) :
    Yields (searchSwarm agents value cfg) fun state ↦ state.2.Sound agents value := by
  refine (seedAssignments_yields _ _).bind fun seeds hseeds ↦ ?_
  have hcount : seeds.length = max cfg.population 1 :=
    hseeds.length_eq.symm.trans List.length_range
  have hseed : ∀ seed ∈ seeds, ∃ particle, seedParticle agents value seed = some particle ∧
      particle.pbest.Sound agents value :=
    forall_of_forall₂ (hseeds.imp fun _ _ ⟨_, _, h⟩ ↦ seedParticle_eq h.canonical h.length)
  obtain ⟨particles, hparticles, hsound⟩ := exists_mapM_forall₂ hseed
  have hlen : particles.length = seeds.length := hsound.length_eq.symm
  have hne : particles ≠ [] := List.ne_nil_of_length_pos (by omega)
  have hsound : ∀ p ∈ particles, p.pbest.Sound agents value := forall_of_forall₂ hsound
  refine (Yields.lift (P := (· = particles)) hparticles rfl).bind fun _ heq ↦ ?_
  obtain ⟨gbest, hgbest, ⟨p, hp, hpbest⟩, hle⟩ := initialBest_eq hne
  rw [heq]
  refine (Yields.lift (P := (· = gbest)) hgbest rfl).bind fun _ heq ↦ ?_
  rw [heq]
  have hstart : Swarm.Sound agents value
      { gbest := gbest, lineage := [gbest], evaluated := particles.map (·.pbest) } :=
    { lineage := List.forall_mem_singleton.mpr (hpbest ▸ hsound p hp)
      ascending := List.pairwise_singleton _ _
      last := rfl
      best := List.forall_mem_singleton.mpr le_rfl
      evaluated := List.forall_mem_map.mpr fun p hp ↦ ⟨hsound p hp, hle p hp⟩ }
  exact (Yields.foldlM (fun _ _ state hstate ↦ runIteration_yields cfg hstate.1 hstate.2)
    ⟨hsound, hstart⟩).imp fun _ hstate ↦ hstate.2

/-- What a search is of that has agents to group. -/
theorem search_of_run {agents : List A} {value : List A → F} {cfg : PopulationConfig P}
    {particles : List (Particle F)} {swarm : Swarm F} {rng : SplitMix64}
    (hn : ¬agents.length = 0) (hrun : (searchSwarm agents value cfg).run { state := cfg.seed } =
      some ((particles, swarm), rng)) :
    search agents value cfg =
      some (⟨swarm.gbest, swarm.lineage, cfg.iterations⟩, swarm.evaluated) := by
  rw [search, if_neg hn, hrun]
  rfl

/-- The search comes to an end without a failed lookup.  Its lineage consists of canonical
assignments of all agents with the right fitness, each better than the one before; the last
is the best, and no candidate was better. -/
theorem search_outcome (agents : List A) (value : List A → F) (cfg : PopulationConfig P) :
    ∃ outcome evaluated, search agents value cfg = some (outcome, evaluated) ∧
      (∀ s ∈ outcome.lineage, Canonical s.assignment ∧ s.assignment.length = agents.length ∧
        s.fitness = structureValue agents value s.assignment) ∧
      outcome.lineage.Pairwise (fun s t ↦ s.fitness < t.fitness) ∧
      outcome.lineage.getLast? = some outcome.best ∧
      ∀ candidate ∈ evaluated, candidate.fitness ≤ outcome.best.fitness := by
  by_cases hn : agents.length = 0
  · refine ⟨_, _, if_pos hn, ?_, List.pairwise_singleton _ _, rfl, ?_⟩
    · refine List.forall_mem_singleton.mpr ⟨?_, hn.symm, rfl⟩
      exact canonical_relabel ([] : List Nat)
    · exact fun _ h ↦ absurd h List.not_mem_nil
  · obtain ⟨⟨particles, swarm⟩, rng, hrun, hsound⟩ :=
      searchSwarm_yields agents value cfg { state := cfg.seed }
    refine ⟨_, _, search_of_run hn hrun, fun s hs ↦ ?_, hsound.ascending, hsound.last,
      fun s hs ↦ ?_⟩
    · exact ⟨(hsound.lineage s hs).canonical, (hsound.lineage s hs).length,
        (hsound.lineage s hs).fitness⟩
    · exact (hsound.evaluated s hs).2

end Run

/-! ## Longer searches -/

section Longer

variable [LinearOrder F] [Add F] [Zero F] [NatCast P] [Div P] [Add P] [LT P] [DecidableLT P]
variable {agents : List A} {value : List A → F}

/-- A move writes nothing but the end of the lineage. -/
theorem moveParticle_grows (cfg : PopulationConfig P) (particle : Particle F) (swarm : Swarm F) :
    Returns (moveParticle agents value cfg particle swarm) fun moved ↦
      swarm.lineage <+: moved.2.lineage := by
  refine (Returns.any _).bind fun next _ ↦ (Returns.any _).bind fun fit _ ↦ Returns.pure ?_
  dsimp only
  split
  · exact List.prefix_append _ _
  · exact List.prefix_rfl

theorem runIteration_grows (cfg : PopulationConfig P) (state : List (Particle F) × Swarm F) :
    Returns (runIteration agents value cfg state) fun state' ↦
      state.2.lineage <+: state'.2.lineage := by
  refine Returns.foldlM (fun _ (moved : List (Particle F) × Swarm F) ↦
    state.2.lineage <+: moved.2.lineage) (fun _ particle _ moved hmoved ↦ ?_) List.prefix_rfl
  refine (moveParticle_grows cfg particle moved.2).bind fun next hnext ↦ ?_
  exact Returns.pure (hmoved.trans hnext)

theorem runIterations_grow (cfg : PopulationConfig P) (l : List Nat)
    (state : List (Particle F) × Swarm F) :
    Returns (l.foldlM (fun state _ ↦ runIteration agents value cfg state) state) fun state' ↦
      state.2.lineage <+: state'.2.lineage := by
  refine Returns.foldlM (fun _ (state' : List (Particle F) × Swarm F) ↦
    state.2.lineage <+: state'.2.lineage) (fun _ _ _ state' hstate' ↦ ?_) List.prefix_rfl
  exact (runIteration_grows cfg state').imp fun _ hgrows ↦ hstate'.trans hgrows

/-- A longer search begins with a shorter one: no draw depends on how many iterations there will
be. -/
theorem searchSwarm_add (agents : List A) (value : List A → F) (cfg : PopulationConfig P)
    (k d : Nat) :
    searchSwarm agents value { cfg with iterations := k + d } =
      searchSwarm agents value { cfg with iterations := k } >>= fun state ↦
        ((List.range d).map (k + ·)).foldlM
          (fun state _ ↦ runIteration agents value cfg state) state := by
  simp only [searchSwarm, bind_assoc]
  refine bind_congr fun seeds ↦ bind_congr fun particles ↦ bind_congr fun gbest ↦ ?_
  rw [List.range_add, List.foldlM_append]
  rfl

/-- **More iterations never hurt.**  Take any agents, values and configuration.  A search of more
iterations has the lineage of one of fewer at the beginning of its own, and so a best value that
is at least as good. -/
theorem more_iterations_never_hurt (agents : List A) (value : List A → F)
    (cfg : PopulationConfig P) {k k' : Nat} (hle : k ≤ k') :
    ∃ shorter longer evaluated evaluated',
      search agents value { cfg with iterations := k } = some (shorter, evaluated) ∧
      search agents value { cfg with iterations := k' } = some (longer, evaluated') ∧
      shorter.lineage <+: longer.lineage ∧ shorter.best.fitness ≤ longer.best.fitness := by
  obtain ⟨d, rfl⟩ := Nat.exists_eq_add_of_le hle
  by_cases hn : agents.length = 0
  · exact ⟨_, _, _, _, if_pos hn, if_pos hn, List.prefix_rfl, le_rfl⟩
  · obtain ⟨⟨particles, swarm⟩, rng, hrun, hsound⟩ :=
      searchSwarm_yields agents value { cfg with iterations := k } { state := cfg.seed }
    obtain ⟨⟨particles', swarm'⟩, rng', hrun', hsound'⟩ :=
      searchSwarm_yields agents value { cfg with iterations := k + d } { state := cfg.seed }
    refine ⟨_, _, _, _, search_of_run hn hrun, search_of_run hn hrun', ?_⟩
    have hgrows : swarm.lineage <+: swarm'.lineage := by
      rw [searchSwarm_add, StateT.run_bind, hrun] at hrun'
      exact runIterations_grow cfg _ _ rng _ rng' hrun'
    -- the best of the shorter search is in the lineage of the longer one
    exact ⟨hgrows, hsound'.best _ (hgrows.subset (List.mem_of_getLast? hsound.last))⟩

/-- Three iterations after one, of three agents that are worth more in larger blocks. -/
theorem more_iterations_never_hurt_threeAgents :
    ∃ (shorter longer : SearchOutcome Nat) (evaluated evaluated' : List (CoalitionStructure Nat)),
      search [1, 2, 3] (fun block ↦ block.sum * block.length)
        (⟨2, 1, 1 / 2, 1 / 4, 7⟩ : PopulationConfig Rat) = some (shorter, evaluated) ∧
      search [1, 2, 3] (fun block ↦ block.sum * block.length)
        (⟨2, 3, 1 / 2, 1 / 4, 7⟩ : PopulationConfig Rat) = some (longer, evaluated') ∧
      shorter.lineage <+: longer.lineage ∧ shorter.best.fitness ≤ longer.best.fitness :=
  more_iterations_never_hurt [1, 2, 3] (fun block ↦ block.sum * block.length)
    (⟨2, 0, 1 / 2, 1 / 4, 7⟩ : PopulationConfig Rat) (by decide : 1 ≤ 3)

end Longer

end Koalisi.Algorithms
