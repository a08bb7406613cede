import Koalisi.Lib.Counting
import Koalisi.Process.Derivation

/-!
# What a workflow demands, with multiplicities

A workflow demands each of its steps as often as it has it.  How many different steps there are is
what staffing asks, and how many there are in all is what pricing asks; a rewrite can change the one
and leave the other.

The occurrences are kept in the order of the writing, and counted in a map.  The map is part of the
invariant: it has the steps that occur as its keys, and says how often each does.  So whatever is
read off the map is the same for all writings with the same steps.
-/

namespace Koalisi.Process

open Koalisi.Harness Koalisi.Lib

/-- Steps are ordered by bit, then by role. -/
instance Step.ord : Ord Step := ⟨compareLex (compareOn Step.bit) (compareOn Step.role)⟩

instance Step.transOrd : Std.TransOrd Step :=
  inferInstanceAs (Std.TransCmp (compareLex (compareOn Step.bit) (compareOn Step.role)))

instance Step.lawfulEqOrd : Std.LawfulEqOrd Step where
  eq_of_compare {a b} h := by
    obtain ⟨hbit, hrole⟩ := Ordering.then_eq_eq.mp h
    cases a
    cases b
    exact congrArg₂ _ (Std.LawfulEqOrd.eq_of_compare hbit) (Std.LawfulEqOrd.eq_of_compare hrole)

/-- The steps that occur, and how often each does. -/
structure CountedDemand where
  /-- Every occurrence, in the order of the writing. -/
  occurrences : List Step
  counts : Counts Step
  counted : counts.Counted occurrences

namespace CountedDemand

/-- Nothing is demanded. -/
def empty : CountedDemand where
  occurrences := []
  counts := ∅
  counted := .empty

/-- One more step is demanded. -/
def push (d : CountedDemand) (step : Step) : CountedDemand where
  occurrences := d.occurrences ++ [step]
  counts := d.counts.bump step
  counted := d.counted.bump step

/-- The demand with an occurrence of each of some steps. -/
def fromSteps (steps : List Step) : CountedDemand := steps.foldl push empty

/-- The different steps, in order. -/
def distinct (d : CountedDemand) : List Step := d.counts.keys

/-- How many different steps there are. -/
def distinctLen (d : CountedDemand) : Nat := d.counts.size

/-- How many steps there are in all. -/
def total (d : CountedDemand) : Nat := d.occurrences.length

/-- How often a step occurs. -/
def multiplicity (d : CountedDemand) (step : Step) : Nat := d.counts[step]?.getD 0

def isEmpty (d : CountedDemand) : Bool := d.occurrences.isEmpty

variable {d : CountedDemand} {steps steps' : List Step}

theorem occurrences_foldl_push (d : CountedDemand) (steps : List Step) :
    (steps.foldl push d).occurrences = d.occurrences ++ steps := by
  induction steps generalizing d with
  | nil => exact (List.append_nil _).symm
  | cons step steps ih =>
      rw [List.foldl_cons, ih, push, List.append_assoc]
      rfl

@[simp] theorem occurrences_fromSteps (steps : List Step) :
    (fromSteps steps).occurrences = steps := occurrences_foldl_push empty steps

theorem multiplicity_eq (d : CountedDemand) (s : Step) :
    d.multiplicity s = d.occurrences.count s := d.counted.counted s

theorem mem_distinct {s : Step} : s ∈ d.distinct ↔ s ∈ d.occurrences := by
  rw [distinct, Std.TreeMap.mem_keys, d.counted.listed]

theorem compare_eq_lt_iff {a b : Step} : compare a b = .lt ↔ a.Before b := by
  change (compare a.bit b.bit).then (compare a.role b.role) = .lt ↔ _
  rw [Ordering.then_eq_lt, Std.compare_eq_lt, Std.LawfulEqOrd.compare_eq_iff_eq,
    Std.compare_eq_lt]
  rfl

/-- The different steps go up. -/
theorem ascending_distinct (d : CountedDemand) : d.distinct.Pairwise Step.Before :=
  Std.TreeMap.ordered_keys.imp compare_eq_lt_iff.mp

/-- The different steps are known by which they are. -/
theorem distinct_eq_of_mem_iff {d d' : CountedDemand}
    (h : ∀ s, s ∈ d.occurrences ↔ s ∈ d'.occurrences) : d.distinct = d'.distinct := by
  have hsame : (⟨d.distinct, d.ascending_distinct⟩ : Demand) =
      ⟨d'.distinct, d'.ascending_distinct⟩ := by
    refine demand_eq_of_mem_iff fun s ↦ ?_
    change s ∈ d.distinct ↔ s ∈ d'.distinct
    rw [mem_distinct, mem_distinct, h]
  exact congrArg Demand.distinct hsame

/-- The multiplicities of the different steps add up to all occurrences. -/
theorem sum_multiplicity (d : CountedDemand) :
    (d.distinct.map d.multiplicity).sum = d.total := d.counted.sum_keys

/-- Two demands have the same counts if they have the same steps, in whatever order. -/
theorem counts_equiv_iff {d d' : CountedDemand} :
    d.counts.Equiv d'.counts ↔ d.occurrences.Perm d'.occurrences :=
  d.counted.equiv_iff d'.counted

/-! ## Reading it off a workflow -/

/-- Demand a generator if it is a step; spiders are wiring. -/
def pushGenerator (d : CountedDemand) : WorkflowGen → CountedDemand
  | .user step => d.push step
  | .mu _ | .eta _ | .delta _ | .epsilon _ => d

/-- The demand of some generators. -/
def ofContent (generators : List WorkflowGen) : CountedDemand :=
  generators.foldl pushGenerator empty

@[simp] theorem occurrences_ofContent (generators : List WorkflowGen) :
    (ofContent generators).occurrences = userSteps generators := by
  have hfold (d : CountedDemand) : (generators.foldl pushGenerator d).occurrences =
      d.occurrences ++ userSteps generators := by
    induction generators generalizing d with
    | nil => exact (List.append_nil _).symm
    | cons g generators ih =>
        rw [List.foldl_cons, ih]
        cases g with
        | user step => exact List.append_assoc _ _ _
        | _ => rfl
  exact hfold empty

end CountedDemand

/-- What a workflow demands, read off its content. -/
def countedDemand {E X W : Type} (engine : Catgraph E X W) (workflow : W) : CountedDemand :=
  .ofContent (engine.contentOfColored workflow)

section Demand

variable {E X W : Type} {engine : Catgraph E X W} {generatorsOf : X → List WorkflowGen}

theorem occurrences_countedDemand (w : W) :
    (countedDemand engine w).occurrences = userSteps (engine.contentOfColored w) :=
  CountedDemand.occurrences_ofContent _

/-- The different steps are those that are staffed. -/
theorem distinct_countedDemand (w : W) :
    (countedDemand engine w).distinct = (demand engine w).distinct := by
  have hsame : (⟨(countedDemand engine w).distinct, CountedDemand.ascending_distinct _⟩ : Demand) =
      demand engine w := by
    refine demand_eq_of_mem_iff fun s ↦ ?_
    rw [demand, Demand.mem_ofSteps, ← occurrences_countedDemand]
    exact CountedDemand.mem_distinct
  exact congrArg Demand.distinct hsame

/-- A chain has the steps of its parts. -/
theorem occurrences_of_chain (h : engine.ListsGenerators generatorsOf) {parts : List X} {leg : X}
    {source : List Role} {w : W} (hleg : chain engine parts = .ok leg)
    (hw : engine.colored source leg = .ok w) :
    (countedDemand engine w).occurrences.Perm
      (parts.flatMap fun part ↦ userSteps (generatorsOf part)) := by
  have hcontent : (userSteps (engine.contentOfColored w)).Perm
      (userSteps (parts.flatMap generatorsOf)) :=
    ((h.content hw).trans (perm_of_chain h hleg)).filterMap _
  rw [userSteps, userSteps, List.filterMap_flatMap] at hcontent
  rw [occurrences_countedDemand]
  exact hcontent

/-- **Demand.**  A chain demands each step as often as its parts have it, and the different steps
are those that are staffed; their multiplicities add up to all occurrences.  Two chains have the
same counts exactly if their parts have the same steps, however these are written. -/
theorem chain_demands_its_parts (h : engine.ListsGenerators generatorsOf) {parts : List X} {leg : X}
    {source : List Role} {w : W} (hleg : chain engine parts = .ok leg)
    (hw : engine.colored source leg = .ok w) :
    (∀ s, (countedDemand engine w).multiplicity s =
      (parts.map fun part ↦ (userSteps (generatorsOf part)).count s).sum) ∧
    (countedDemand engine w).distinct = (demand engine w).distinct ∧
    ((countedDemand engine w).distinct.map (countedDemand engine w).multiplicity).sum =
      (countedDemand engine w).total ∧
    ∀ parts' leg' source' w', chain engine parts' = .ok leg' →
      engine.colored source' leg' = .ok w' →
      ((countedDemand engine w').counts.Equiv (countedDemand engine w).counts ↔
        (parts'.flatMap fun part ↦ userSteps (generatorsOf part)).Perm
          (parts.flatMap fun part ↦ userSteps (generatorsOf part))) := by
  have hsteps := occurrences_of_chain h hleg hw
  refine ⟨fun s ↦ ?_, distinct_countedDemand w, CountedDemand.sum_multiplicity _,
    fun parts' leg' source' w' hleg' hw' ↦ ?_⟩
  · rw [CountedDemand.multiplicity_eq, hsteps.count_eq, List.count_flatMap]
    rfl
  · have hsteps' := occurrences_of_chain h hleg' hw'
    rw [CountedDemand.counts_equiv_iff]
    constructor
    · exact fun hperm ↦ hsteps'.symm.trans (hperm.trans hsteps)
    · exact fun hperm ↦ hsteps'.trans (hperm.trans hsteps.symm)

/-- A step, and then the same step twice side by side between spiders. -/
def fannedParts : List Terms.Term :=
  let s := stepExpr Terms.engine ⟨1, 0⟩
  [s, spiderExpr Terms.engine (.delta 0), Terms.engine.tensor s s,
    spiderExpr Terms.engine (.mu 0)]

def fanned : Terms.Term :=
  .compose (.compose (.compose (.generator (.user ⟨1, 0⟩)) (.generator (.delta 0)))
    (.tensor (.generator (.user ⟨1, 0⟩)) (.generator (.user ⟨1, 0⟩)))) (.generator (.mu 0))

theorem a_fanned_step_is_counted :
    chain Terms.engine fannedParts = .ok fanned ∧ Terms.engine.colored [0] fanned = .ok fanned ∧
      (countedDemand Terms.engine fanned).multiplicity ⟨1, 0⟩ = 3 ∧
      (countedDemand Terms.engine fanned).total = 3 := by
  have hleg : chain Terms.engine fannedParts = .ok fanned := rfl
  have hw : Terms.engine.colored [0] fanned = .ok fanned := rfl
  obtain ⟨hmultiplicity, hdistinct, htotal, -⟩ :=
    chain_demands_its_parts Terms.listsGenerators hleg hw
  have hstep : (countedDemand Terms.engine fanned).multiplicity ⟨1, 0⟩ = 3 :=
    (hmultiplicity _).trans rfl
  have hone : (demand Terms.engine fanned).distinct = [⟨1, 0⟩] := rfl
  refine ⟨hleg, hw, hstep, ?_⟩
  rw [← htotal, hdistinct, hone, List.map_singleton, List.sum_singleton, hstep]

end Demand

end Koalisi.Process
