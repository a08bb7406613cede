import Koalisi.Harness.Instance

/-!
# Drawing process-structured instances

The flat draw comes first.  Then every agent is given a role and every required bit of a
task a tag, which is the role that must provide it; a task with a bit that nobody of its
tag holds is drawn again, up to a cap.  Each task is then written as a workflow: the steps
of each role in a chain, the chains side by side.  What the workflow demands is read off
its content.  Who performs on which task is drawn last.

Workflows are string diagrams of an engine that is not modelled.  It is a parameter, and
only the generators in an expression matter here.
-/

namespace Koalisi.Harness

open Koalisi.Lib Koalisi.Lib.Masks Koalisi.Lib.Fallible
open Koalisi.Topology (U64)

/-! ## Workflows -/

/-- A generator of a workflow: a step, or a spider of a role. -/
inductive WorkflowGen where
  | user (step : Step)
  | mu (role : Role)
  | eta (role : Role)
  | delta (role : Role)
  | epsilon (role : Role)
deriving DecidableEq, Repr

/-- The engine of string diagrams: expressions `X`, expressions with colored wires `W`, and
errors `E`. -/
structure Catgraph (E X W : Type) where
  /-- An error with a message. -/
  presentation : String → E
  generator : WorkflowGen → X
  /-- One expression after the other, if their interfaces meet. -/
  compose : X → X → Except E X
  /-- One expression beside the other. -/
  tensor : X → X → X
  /-- Pin the colors of the source. -/
  colored : List Role → X → Except E W
  /-- The generators in the content, in the order of its edges. -/
  contentOfColored : W → List WorkflowGen

section Workflows

variable {E X W : Type} (engine : Catgraph E X W)

/-- One step. -/
def stepExpr (step : Step) : X := engine.generator (.user step)

/-- One spider. -/
def spiderExpr (spider : WorkflowGen) : X := engine.generator spider

/-- Compose parts from left to right. -/
def chain : List X → Except E X
  | [] => .error (engine.presentation "workflow chain: a pipeline needs at least one stage")
  | part :: parts => parts.foldlM engine.compose part

/-- Enter a step in its place, unless it is there. -/
def enter (step : Step) : List Step → List Step
  | [] => [step]
  | s :: steps =>
      if step.Before s then step :: s :: steps
      else if step = s then s :: steps
      else s :: enter step steps

/-- The steps among generators. -/
def userSteps (generators : List WorkflowGen) : List Step :=
  generators.filterMap fun
    | .user step => some step
    | _ => none

end Workflows

theorem Step.Before.trans {a b c : Step} (hab : a.Before b) (hbc : b.Before c) : a.Before c := by
  rcases hab with hab | ⟨hbit, hab⟩
  · rcases hbc with hbc | ⟨hbit, -⟩
    · exact Or.inl (UInt8.lt_trans hab hbc)
    · exact Or.inl (hbit ▸ hab)
  · rcases hbc with hbc | ⟨hbit', hbc⟩
    · exact Or.inl (hbit ▸ hbc)
    · exact Or.inr ⟨hbit.trans hbit', UInt8.lt_trans hab hbc⟩

theorem Step.before_of_not {a b : Step} (hab : ¬a.Before b) (hne : a ≠ b) : b.Before a := by
  rw [Step.Before, not_or] at hab
  by_cases hbit : a.bit = b.bit
  · have hrole : a.role ≠ b.role := by
      intro hrole
      cases a
      cases b
      exact hne (congrArg₂ Step.mk hbit hrole)
    rcases UInt8.lt_or_lt_of_ne hrole with h | h
    · exact absurd ⟨hbit, h⟩ hab.2
    · exact Or.inr ⟨hbit.symm, h⟩
  · rcases UInt8.lt_or_lt_of_ne hbit with h | h
    · exact absurd h hab.1
    · exact Or.inl h

theorem mem_enter {step s : Step} {steps : List Step} :
    s ∈ enter step steps ↔ s = step ∨ s ∈ steps := by
  induction steps with
  | nil => rw [enter, List.mem_singleton, List.mem_nil_iff, or_false]
  | cons s' steps ih =>
      rw [enter]
      split
      · rw [List.mem_cons]
      · split
        · next h => rw [h, List.mem_cons, or_self_left]
        · rw [List.mem_cons, ih, List.mem_cons, or_left_comm]

theorem enter_ascending {step : Step} {steps : List Step} (h : steps.Pairwise Step.Before) :
    (enter step steps).Pairwise Step.Before := by
  induction steps with
  | nil => exact List.pairwise_singleton _ _
  | cons s steps ih =>
      obtain ⟨hs, hsteps⟩ := List.pairwise_cons.mp h
      rw [enter]
      split
      · next hbefore =>
          refine List.pairwise_cons.mpr ⟨fun s' hs' ↦ ?_, h⟩
          rcases List.mem_cons.mp hs' with rfl | hs'
          · exact hbefore
          · exact hbefore.trans (hs s' hs')
      · next hbefore =>
          split
          · exact h
          · next hne =>
              refine List.pairwise_cons.mpr ⟨fun s' hs' ↦ ?_, ih hsteps⟩
              rcases mem_enter.mp hs' with rfl | hs'
              · exact Step.before_of_not hbefore hne
              · exact hs s' hs'

namespace Demand

/-- Nothing is demanded. -/
def empty : Demand := ⟨[], .nil⟩

/-- Demand a step. -/
def add (demand : Demand) (step : Step) : Demand :=
  ⟨enter step demand.distinct, enter_ascending demand.ascending⟩

/-- Demand each of the steps. -/
def ofSteps (steps : List Step) : Demand := steps.foldl add empty

theorem mem_foldl_add {steps : List Step} {demand : Demand} {s : Step} :
    s ∈ (steps.foldl add demand).distinct ↔ s ∈ demand.distinct ∨ s ∈ steps := by
  induction steps generalizing demand with
  | nil => rw [List.foldl_nil, List.mem_nil_iff, or_false]
  | cons step steps ih =>
      rw [List.foldl_cons, ih, add, mem_enter, List.mem_cons, or_assoc, or_left_comm]

theorem mem_ofSteps {steps : List Step} {s : Step} : s ∈ (ofSteps steps).distinct ↔ s ∈ steps := by
  rw [ofSteps, mem_foldl_add, empty, List.mem_nil_iff, false_or]

end Demand

/-- What a workflow demands, read off its content. -/
def demand {E X W : Type} (engine : Catgraph E X W) (workflow : W) : Demand :=
  .ofSteps (userSteps (engine.contentOfColored workflow))

/-! ## Staffing -/

/-- How many workers there are, and how many of them can perform each step. -/
structure StaffingTable where
  poolSize : Nat
  /-- The entries of a map; a step without one has no holder. -/
  holders : Step → Nat

namespace StaffingTable

/-- Count a worker for one step; the counts have 32 bits. -/
def addHolder (table : StaffingTable) (step : Step) : Option StaffingTable :=
  if table.holders step + 1 < 2 ^ 32 then
    some { table with
      holders := fun s ↦ if s = step then table.holders step + 1 else table.holders s }
  else none

/-- Count a worker. -/
def addWorker (table : StaffingTable) (worker : UInt32 × Role) : Option StaffingTable :=
  (List.range 32).foldlM (fun table b ↦
      if Holds worker.1 b then table.addHolder ⟨b.toUInt8, worker.2⟩ else some table)
    { table with poolSize := min (table.poolSize + 1) (2 ^ 32 - 1) }

/-- Tabulate a pool. -/
def fromPool (workers : List (UInt32 × Role)) : Option StaffingTable :=
  workers.foldlM addWorker { poolSize := 0, holders := fun _ ↦ 0 }

/-- Whether anyone can perform the step. -/
def isStaffable (table : StaffingTable) (step : Step) : Bool := 0 < table.holders step

end StaffingTable

/-! ## Specifications and instances -/

/-- Agents are reliable with a probability, and fail at one of two rates. -/
structure PerformanceSpec (P : Type) where
  reliableProb : P
  rhoReliable : P
  rhoFlaky : P

/-- The ranges that a process-structured instance is drawn from. -/
structure WorkflowSpec (P : Type) where
  base : InstanceSpec
  roles : UInt8
  /-- How often a task may be drawn. -/
  redrawCap : Nat
  /-- One pair of adjacent steps in so many is fanned out. -/
  fanoutDenom : UInt64
  performance : Option (PerformanceSpec P)

/-- A task as generated, with what the runner does not read. -/
structure GeneratedTask (W : Type) extends WorkflowTask where
  required : UInt32
  written : W

/-- An instance as generated, with what the runner does not read. -/
structure GeneratedInstance (W : Type) where
  seed : U64
  agents : List CapabilityAgent
  roles : List Role
  tasks : List (GeneratedTask W)
  /-- The required bits of each task as they were drawn first. -/
  prefixRequired : List UInt32
  table : StaffingTable
  redraws : Nat
  maxAttempts : Nat
  performance : Option (List (List Bool))

/-- The instance that is run. -/
def GeneratedInstance.toWorkflowInstance {W : Type} (inst : GeneratedInstance W) :
    WorkflowInstance :=
  { seed := inst.seed
    agents := inst.agents
    roles := inst.roles
    tasks := inst.tasks.map (·.toWorkflowTask)
    performance := inst.performance }

/-- What can go wrong when an instance is generated. -/
inductive GenerateError (E : Type) where
  | noRoles
  | zeroFanoutDenominator
  | zeroRedrawCap
  | emptyRequirement
  | infeasible (seed : U64) (task cap : Nat)
  | catgraph (inner : E)
deriving DecidableEq, Repr

/-- How a generation can end without an instance. -/
inductive Halt (E : Type) where
  | error (error : GenerateError E)
  | panic
deriving DecidableEq, Repr

/-- A computation that draws numbers and may fail. -/
abbrev Generation (E α : Type) := EStateM (Halt E) SplitMix64 α

/-! ## Generation -/

section Generation

variable {E X W P α : Type}

/-- Draw. -/
def drawn (x : Draw α) : Generation E α := fun rng ↦
  match x.run rng with
  | some (a, rng) => .ok a rng
  | none => .error .panic rng

/-- Give an error on. -/
def checked (x : Except (GenerateError E) α) : Generation E α := look fun _ ↦ x.mapError .error

/-- Whether a mask asks for a bit; it has 32 bits to shift by. -/
def requires (required : UInt32) (b : Nat) : Option Bool :=
  if b < 32 then some (Holds required b) else none

/-- A role below the number of roles. -/
def drawRole (nRoles : UInt8) : Draw Role := do return (← below nRoles.toUInt64).toUInt8

/-- One tag per required bit. -/
def drawTags (required : UInt32) (universeBits : Nat) (nRoles : UInt8) : Draw (List Role) :=
  (List.range universeBits).mapM fun b ↦ do
    if ← StateT.lift (requires required b) then drawRole nRoles else return 0

/-- Every required bit has a holder of its tag in the pool. -/
def feasible (table : StaffingTable) (required : UInt32) (tags : List Role) : Option Bool :=
  tags.zipIdx.allM fun tag ↦ do
    return !(← requires required tag.2) || table.isStaffable ⟨tag.2.toUInt8, tag.1⟩

/-- The steps of a task, in the order of their bits. -/
def taggedSteps (required : UInt32) (tags : List Role) : Option (List Step) := do
  let steps ← tags.zipIdx.mapM fun tag ↦ do
    return if ← requires required tag.2 then [⟨tag.2.toUInt8, tag.1⟩] else []
  return steps.flatten

section Shape

variable (engine : Catgraph E X W)

/-- Whether the step at a place of a chain is fanned out; nothing is drawn for the first. -/
def drawFanned (fanoutDenom : UInt64) (i : Nat) : Draw Bool :=
  if 0 < i then do return (← SplitMix64.nextU64) % fanoutDenom = 0 else return false

/-- The parts of the chain of a role. -/
def drawParts (fanoutDenom : UInt64) (role : Role) (group : List Step) : Draw (List X) := do
  let parts ← group.zipIdx.mapM fun step ↦ do
    let fanned ← drawFanned fanoutDenom step.2
    let s := stepExpr engine step.1
    return if fanned then
        [spiderExpr engine (.delta role), engine.tensor s s, spiderExpr engine (.mu role)]
      else [s]
  return parts.flatten

/-- The roles and the chains of a workflow. -/
structure Legs (X : Type) where
  source : List Role
  legs : List X

/-- Add the chain of a role that has steps. -/
def drawLeg (fanoutDenom : UInt64) (steps : List Step) (acc : Legs X) (r : Nat) :
    Generation E (Legs X) := do
  let role := r.toUInt8
  let group := steps.filter (·.role = role)
  if group.isEmpty then return acc
  else do
    let parts ← drawn (drawParts engine fanoutDenom role group)
    let leg ← checked ((chain engine parts).mapError .catgraph)
    return { source := acc.source ++ [role], legs := acc.legs ++ [leg] }

/-- The workflow of a task. -/
def drawShape (required : UInt32) (tags : List Role) (nRoles : UInt8) (fanoutDenom : UInt64) :
    Generation E W := do
  let steps ← drawn (StateT.lift (taggedSteps required tags))
  let legs ← (List.range nRoles.toNat).foldlM (drawLeg engine fanoutDenom steps) ⟨[], []⟩
  match legs.legs with
  | [] => checked (.error .emptyRequirement)
  | leg :: rest =>
      checked ((engine.colored legs.source (rest.foldl engine.tensor leg)).mapError .catgraph)

end Shape

/-- Who performs on which task. -/
def drawPerformance [NatCast P] [One P] [Sub P] [Div P] [LT P] [DecidableLT P]
    (perf : PerformanceSpec P) (n tasks : Nat) : Draw (List (List Bool)) := do
  let rho ← (List.range n).mapM fun _ ↦ do
    return if (← SplitMix64.nextUnit P) < perf.reliableProb then perf.rhoReliable
      else perf.rhoFlaky
  (List.range tasks).mapM fun _ ↦ rho.mapM fun r ↦ do return (← SplitMix64.nextUnit P) < 1 - r

/-- A draw of a task: its bits and tags, how often it was drawn, and how many draws of all
tasks were repetitions. -/
structure Draft where
  required : UInt32
  tags : List Role
  attempts : Nat
  redraws : Nat

/-- What is left of a draw. -/
structure Tagged where
  required : UInt32
  tags : List Role
  arrival : List Nat

/-- The tasks that have been tagged. -/
structure Tagging where
  redraws : Nat
  maxAttempts : Nat
  tagged : List Tagged

namespace WorkflowSpec

variable (spec : WorkflowSpec P)

/-- What is refused before anything is drawn. -/
def check : Except (GenerateError E) Unit :=
  if spec.roles = 0 then .error .noRoles
  else if spec.fanoutDenom = 0 then .error .zeroFanoutDenominator
  else if spec.redrawCap = 0 then .error .zeroRedrawCap
  else if spec.base.requiredBits.start = 0 then .error .emptyRequirement
  else .ok ()

/-- Tag the bits of a task. -/
def drawTags (required : UInt32) : Draw (List Role) :=
  Harness.drawTags required spec.base.universeBits.toNat spec.roles

/-- Draw a task again until it is feasible, at most so many times. -/
def redraw (table : StaffingTable) (infeasible : GenerateError E) :
    Nat → Draft → Generation E Draft
  | 0, draft => do
      if ← drawn (StateT.lift (feasible table draft.required draft.tags)) then return draft
      else checked (.error infeasible)
  | left + 1, draft => do
      if ← drawn (StateT.lift (feasible table draft.required draft.tags)) then return draft
      else do
        let required ← drawn spec.base.drawRequired
        let tags ← drawn (spec.drawTags required)
        redraw table infeasible left
          { required, tags, attempts := draft.attempts + 1, redraws := draft.redraws + 1 }

/-- Tag a task of the flat draw. -/
def tagTask (seed : U64) (table : StaffingTable) (acc : Tagging) (task : Task × Nat) :
    Generation E Tagging := do
  let tags ← drawn (spec.drawTags task.1.required)
  let draft ← spec.redraw table (.infeasible seed task.2 spec.redrawCap) (spec.redrawCap - 1)
    { required := task.1.required, tags, attempts := 1, redraws := acc.redraws }
  return { redraws := draft.redraws
           maxAttempts := max acc.maxAttempts draft.attempts
           tagged := acc.tagged ++ [⟨draft.required, draft.tags, task.1.arrival⟩] }

variable (engine : Catgraph E X W)

/-- Write the workflow of a task. -/
def writeTask (tagged : Tagged) : Generation E (GeneratedTask W) := do
  let written ← drawShape engine tagged.required tagged.tags spec.roles spec.fanoutDenom
  return { required := tagged.required
           tags := tagged.tags
           arrival := tagged.arrival
           written
           demand := demand engine written }

/-- Everything but the performance. -/
def drawWorld (seed : U64) : Generation E (GeneratedInstance W) := do
  checked spec.check
  let (agents, baseTasks) ← drawn spec.base.draw
  let roles ← drawn ((List.range agents.length).mapM fun _ ↦ drawRole spec.roles)
  let table ← drawn (StateT.lift
    (StaffingTable.fromPool ((agents.map (·.capabilities)).zip roles)))
  let tagging ← baseTasks.zipIdx.foldlM (spec.tagTask seed table) ⟨0, 0, []⟩
  let tasks ← tagging.tagged.mapM (spec.writeTask engine)
  return { seed, agents, roles, tasks, table
           prefixRequired := baseTasks.map (·.required)
           redraws := tagging.redraws
           maxAttempts := tagging.maxAttempts
           performance := none }

variable [NatCast P] [One P] [Sub P] [Div P] [LT P] [DecidableLT P]

/-- The world, and the performance if it is asked for. -/
def drawInstance (seed : U64) : Generation E (GeneratedInstance W) := do
  let world ← spec.drawWorld engine seed
  match spec.performance with
  | none => return world
  | some perf => do
      let performance ← drawn (drawPerformance perf world.agents.length world.tasks.length)
      return { world with performance := some performance }

/-- The instance of a seed. -/
def generate (seed : U64) : Except (Halt E) (GeneratedInstance W) :=
  outcome (spec.drawInstance engine seed ⟨UInt64.ofNat seed⟩)

end WorkflowSpec

end Generation

end Koalisi.Harness
