import Mathlib.Data.Rat.Defs
import Koalisi.Harness.Generate

/-!
# What is drawn

A task is drawn until every required bit has a holder of its tag, and its workflow is
written with a step for every required bit, of the role of the tag.  These facts are
followed through the generation, stage by stage, to the instance.

The engine of the workflows is assumed to list, in the content of a workflow, the
generators that the expression was made of.
-/

namespace Koalisi.Harness

open Koalisi.Lib Koalisi.Lib.Masks Koalisi.Lib.Fallible
open Koalisi.Topology (U64)

variable {E X W P α : Type}

/-! ## The rules of a generation -/

theorem drawn_eq_ok {x : Draw α} {rng rng' : SplitMix64} {a : α} :
    (drawn x : Generation E α) rng = .ok a rng' ↔ x.run rng = some (a, rng') := by
  unfold drawn
  cases h : x.run rng with
  | none => simp
  | some p =>
      obtain ⟨b, r⟩ := p
      simp

theorem drawn_returns {x : Draw α} {Q : α → Prop} (h : Returns x Q) :
    Returns (drawn x : Generation E α) Q := fun rng a rng' hx ↦ h rng a rng' (drawn_eq_ok.mp hx)

theorem lift_returns (x : Option α) :
    Returns (drawn (StateT.lift x) : Generation E α) fun a ↦ x = some a := by
  refine drawn_returns fun rng a rng' h ↦ ?_
  obtain ⟨b, hb, h⟩ := Option.bind_eq_some_iff.mp h
  cases h
  exact hb

theorem checked_returns (x : Except (GenerateError E) α) :
    Returns (checked x) fun a ↦ x = .ok a := by
  intro rng a rng' h
  obtain ⟨h, -⟩ := look_eq_ok.mp h
  cases x with
  | error e => cases h
  | ok b =>
      cases h
      rfl

/-- What the engine refuses is an error. -/
theorem engine_returns (x : Except E α) :
    Returns (checked (x.mapError .catgraph)) fun a ↦ x = .ok a := by
  refine (checked_returns _).imp fun a ha ↦ ?_
  cases x with
  | error e => cases ha
  | ok b =>
      cases ha
      rfl

/-! ## Tags and steps -/

theorem requires_eq_some {required : UInt32} {b : Nat} {c : Bool}
    (h : requires required b = some c) :
    c = Holds required b := by
  unfold requires at h
  split at h
  · exact (Option.some.inj h).symm
  · cases h

/-- The steps of a mask with tags. -/
def stepsOf (required : UInt32) (tags : List Role) : List Step :=
  tags.zipIdx.flatMap fun tag ↦
    if Holds required tag.2 then [⟨tag.2.toUInt8, tag.1⟩] else []

theorem mem_stepsOf {required : UInt32} {tags : List Role} {step : Step} :
    step ∈ stepsOf required tags ↔
      ∃ b, tags[b]? = some step.role ∧ Holds required b ∧ step.bit.toNat = b := by
  rw [stepsOf, List.mem_flatMap]
  constructor
  · rintro ⟨⟨role, b⟩, htag, hstep⟩
    dsimp only at hstep
    split at hstep
    · next hholds =>
        cases List.mem_singleton.mp hstep
        have hb := lt_of_holds hholds
        refine ⟨b, List.mem_zipIdx_iff_getElem?.mp htag, hholds, ?_⟩
        rw [UInt8.toNat_ofNat']
        omega
    · cases hstep
  · rintro ⟨b, htag, hholds, hbit⟩
    refine ⟨(step.role, b), List.mem_zipIdx_iff_getElem?.mpr htag, ?_⟩
    dsimp only
    rw [if_pos hholds, List.mem_singleton, ← hbit, Nat.toUInt8, UInt8.ofNat_toNat]

theorem mapM_option_eq {β γ : Type} {f : β → Option γ} {g : β → γ} {l : List β} {cs : List γ}
    (hfg : ∀ b c, f b = some c → c = g b) (h : l.mapM f = some cs) : cs = l.map g := by
  induction l generalizing cs with
  | nil =>
      cases h
      rfl
  | cons b l ih =>
      rw [List.mapM_cons] at h
      obtain ⟨c, hc, h⟩ := Option.bind_eq_some_iff.mp h
      obtain ⟨cs', hcs, h⟩ := Option.bind_eq_some_iff.mp h
      cases h
      rw [List.map_cons, hfg b c hc, ih hcs]

theorem taggedSteps_eq {required : UInt32} {tags : List Role} {steps : List Step}
    (h : taggedSteps required tags = some steps) : steps = stepsOf required tags := by
  obtain ⟨found, hfound, h⟩ := Option.bind_eq_some_iff.mp h
  cases h
  rw [mapM_option_eq (g := fun tag ↦
      if Holds required tag.2 then [(⟨tag.2.toUInt8, tag.1⟩ : Step)] else []) ?_ hfound]
  · rfl
  · intro tag found h
    obtain ⟨c, hc, h⟩ := Option.bind_eq_some_iff.mp h
    cases h
    rw [requires_eq_some hc]

theorem forall_of_allM {p : α → Option Bool} {l : List α} (h : l.allM p = some true) :
    ∀ a ∈ l, p a = some true := by
  induction l with
  | nil => exact fun a ha ↦ absurd ha List.not_mem_nil
  | cons a l ih =>
      rw [List.allM] at h
      obtain ⟨c, hc, h⟩ := Option.bind_eq_some_iff.mp h
      cases c with
      | false => cases h
      | true => exact List.forall_mem_cons.mpr ⟨hc, ih h⟩

/-- A feasible task has a staffable step for each required bit. -/
theorem staffable_of_feasible {table : StaffingTable} {required : UInt32} {tags : List Role}
    (h : feasible table required tags = some true) {step : Step}
    (hstep : step ∈ stepsOf required tags) : table.isStaffable step := by
  obtain ⟨b, htag, hholds, hbit⟩ := mem_stepsOf.mp hstep
  have hone := forall_of_allM h (step.role, b) (List.mem_zipIdx_iff_getElem?.mpr htag)
  obtain ⟨c, hc, hone⟩ := Option.bind_eq_some_iff.mp hone
  rw [requires_eq_some hc, hholds] at hone
  have hstep' : (⟨b.toUInt8, step.role⟩ : Step) = step := by
    rw [← hbit, Nat.toUInt8, UInt8.ofNat_toNat]
  rw [← hstep']
  exact Option.some.inj hone

/-- Tags below the number of roles, one for each bit. -/
structure Tags (universeBits : Nat) (nRoles : UInt8) (tags : List Role) : Prop where
  length : tags.length = universeBits
  lt : ∀ tag ∈ tags, tag < nRoles

theorem drawRole_returns (nRoles : UInt8) : Returns (drawRole nRoles) (· < nRoles) := by
  refine (below_returns _).bind fun r hr ↦ Returns.pure ?_
  rw [UInt8.toNat_toUInt64] at hr
  rw [UInt8.lt_iff_toNat_lt, UInt64.toNat_toUInt8]
  exact Nat.lt_of_le_of_lt (Nat.mod_le _ _) hr

theorem drawTags_returns (required : UInt32) (universeBits : Nat) {nRoles : UInt8}
    (h : nRoles ≠ 0) :
    Returns (drawTags required universeBits nRoles) (Tags universeBits nRoles) := by
  refine (Returns.mapM (R := fun _ tag ↦ tag < nRoles) fun b _ ↦ ?_).imp fun tags htags ↦ ?_
  · refine (Returns.any _).bind fun c _ ↦ ?_
    cases c with
    | true => exact drawRole_returns nRoles
    | false =>
        refine Returns.pure ?_
        rw [UInt8.lt_iff_toNat_lt]
        exact Nat.pos_of_ne_zero fun hzero ↦ absurd (UInt8.toNat.inj hzero) h
  · exact ⟨by rw [← htags.length_eq, List.length_range], forall_of_forall₂ htags⟩

/-! ## Workflows -/

/-- The engine lists in the content of a workflow the generators of its expression. -/
structure Catgraph.ListsGenerators (engine : Catgraph E X W) (generatorsOf : X → List WorkflowGen) :
    Prop where
  generator (g : WorkflowGen) : (generatorsOf (engine.generator g)).Perm [g]
  compose {x y z : X} : engine.compose x y = .ok z →
    (generatorsOf z).Perm (generatorsOf x ++ generatorsOf y)
  tensor (x y : X) :
    (generatorsOf (engine.tensor x y)).Perm (generatorsOf x ++ generatorsOf y)
  content {source : List Role} {x : X} {w : W} : engine.colored source x = .ok w →
    (engine.contentOfColored w).Perm (generatorsOf x)

section Shape

variable {engine : Catgraph E X W} {generatorsOf : X → List WorkflowGen}

theorem mem_userSteps {generators : List WorkflowGen} {step : Step} :
    step ∈ userSteps generators ↔ .user step ∈ generators := by
  rw [userSteps, List.mem_filterMap]
  constructor
  · rintro ⟨g, hg, hstep⟩
    cases g with
    | user s =>
        cases hstep
        exact hg
    | _ => cases hstep
  · exact fun h ↦ ⟨.user step, h, rfl⟩

/-- A chain is made of the generators of its parts. -/
theorem perm_of_chain (h : engine.ListsGenerators generatorsOf) {parts : List X} {leg : X}
    (hleg : chain engine parts = .ok leg) :
    (generatorsOf leg).Perm (parts.flatMap generatorsOf) := by
  cases parts with
  | nil => cases hleg
  | cons part parts =>
      rw [chain] at hleg
      rw [List.flatMap_cons]
      induction parts generalizing part with
      | nil =>
          cases hleg
          rw [List.flatMap_nil, List.append_nil]
      | cons next parts ih =>
          rw [List.foldlM_cons] at hleg
          obtain ⟨acc, hacc, hleg⟩ := except_bind_eq_ok.mp hleg
          refine (ih acc hleg).trans ?_
          rw [List.flatMap_cons, ← List.append_assoc]
          exact (h.compose hacc).append_right _

/-- Legs side by side are made of the generators of each. -/
theorem perm_foldl_tensor (h : engine.ListsGenerators generatorsOf) (leg : X) (legs : List X) :
    (generatorsOf (legs.foldl engine.tensor leg)).Perm ((leg :: legs).flatMap generatorsOf) := by
  induction legs generalizing leg with
  | nil => rw [List.foldl_nil, List.flatMap_cons, List.flatMap_nil, List.append_nil]
  | cons next legs ih =>
      refine (ih _).trans ?_
      rw [List.flatMap_cons, List.flatMap_cons, List.flatMap_cons, ← List.append_assoc]
      exact (h.tensor leg next).append_right _

/-- The parts of a chain are the steps of its group, however they are fanned out. -/
theorem drawParts_returns (h : engine.ListsGenerators generatorsOf) (fanoutDenom : UInt64)
    (role : Role) (group : List Step) :
    Returns (drawParts engine fanoutDenom role group) fun parts ↦
      ∀ s, .user s ∈ parts.flatMap generatorsOf ↔ s ∈ group := by
  have hone (step : Step × Nat) : Returns (do
      let fanned ← drawFanned fanoutDenom step.2
      let s := stepExpr engine step.1
      return if fanned then
          [spiderExpr engine (.delta role), engine.tensor s s, spiderExpr engine (.mu role)]
        else [s] : Draw (List X)) fun part ↦
      ∀ s, .user s ∈ part.flatMap generatorsOf ↔ s = step.1 := by
    refine (Returns.any _).bind fun fanned _ ↦ Returns.pure fun s ↦ ?_
    cases fanned with
    | true =>
        simp [stepExpr, spiderExpr, (h.generator _).mem_iff, (h.tensor _ _).mem_iff]
    | false =>
        simp [stepExpr, (h.generator _).mem_iff]
  refine (Returns.mapM fun step _ ↦ hone step).bind fun parts hparts ↦ Returns.pure fun s ↦ ?_
  rw [← List.zipIdx_map_fst 0 group]
  generalize group.zipIdx = steps at hparts
  induction hparts with
  | nil => simp
  | cons hpart _ ih =>
      rw [List.flatten_cons, List.flatMap_append, List.mem_append, List.map_cons, List.mem_cons,
        hpart, ih]

/-- The legs of the roles so far have the steps of these roles. -/
def HasSteps (generatorsOf : X → List WorkflowGen) (steps : List Step) (front : List Nat)
    (acc : Legs X) : Prop :=
  ∀ s, .user s ∈ acc.legs.flatMap generatorsOf ↔ s ∈ steps ∧ ∃ r ∈ front, s.role = r.toUInt8

theorem drawLeg_returns (h : engine.ListsGenerators generatorsOf) (fanoutDenom : UInt64)
    {steps : List Step} {front : List Nat} {acc : Legs X}
    (hacc : HasSteps generatorsOf steps front acc) (r : Nat) :
    Returns (drawLeg engine fanoutDenom steps acc r)
      (HasSteps generatorsOf steps (front ++ [r])) := by
  -- the steps of the role are those that the new leg must have
  have hfilter (s : Step) : s ∈ steps.filter (·.role = r.toUInt8) ↔
      s ∈ steps ∧ s.role = r.toUInt8 := by
    rw [List.mem_filter, decide_eq_true_eq]
  have hsplit (s : Step) : (s ∈ steps ∧ ∃ r' ∈ front ++ [r], s.role = r'.toUInt8) ↔
      (s ∈ steps ∧ ∃ r' ∈ front, s.role = r'.toUInt8) ∨ s ∈ steps.filter (·.role = r.toUInt8) := by
    rw [hfilter, ← and_or_left]
    refine and_congr_right fun _ ↦ ?_
    constructor
    · rintro ⟨r', hr', hrole⟩
      rcases List.mem_append.mp hr' with hr' | hr'
      · exact Or.inl ⟨r', hr', hrole⟩
      · cases List.mem_singleton.mp hr'
        exact Or.inr hrole
    · rintro (⟨r', hr', hrole⟩ | hrole)
      · exact ⟨r', List.mem_append_left _ hr', hrole⟩
      · exact ⟨r, List.mem_append_right _ (List.mem_singleton.mpr rfl), hrole⟩
  unfold drawLeg
  dsimp only
  split
  · next hempty =>
      refine Returns.pure fun s ↦ ?_
      rw [hsplit, List.isEmpty_iff.mp hempty, List.mem_nil_iff, or_false]
      exact hacc s
  · refine (drawn_returns (drawParts_returns h fanoutDenom _ _)).bind fun parts hparts ↦ ?_
    refine (engine_returns _).bind fun leg hleg ↦ Returns.pure fun s ↦ ?_
    rw [List.flatMap_append, List.mem_append, List.flatMap_cons, List.flatMap_nil, List.append_nil,
      (perm_of_chain h hleg).mem_iff, hparts, hacc, hsplit]

/-- A workflow has the steps of its task. -/
theorem drawShape_returns (h : engine.ListsGenerators generatorsOf) (fanoutDenom : UInt64)
    {required : UInt32} {tags : List Role} {nRoles : UInt8} (htags : ∀ tag ∈ tags, tag < nRoles) :
    Returns (drawShape engine required tags nRoles fanoutDenom) fun written ↦
      ∀ s, s ∈ userSteps (engine.contentOfColored written) ↔ s ∈ stepsOf required tags := by
  refine (lift_returns _).bind fun steps hsteps ↦ ?_
  rw [taggedSteps_eq hsteps]
  refine (Returns.foldlM (HasSteps generatorsOf (stepsOf required tags))
    (fun front r _ acc hacc ↦ drawLeg_returns h fanoutDenom hacc r) ?_).bind fun legs hlegs ↦ ?_
  · intro s
    simp
  · split
    · refine (checked_returns _).imp fun w hw ↦ ?_
      cases hw
    · next leg rest hcons =>
        refine (engine_returns _).imp fun w hw s ↦ ?_
        rw [mem_userSteps, (h.content hw).mem_iff, (perm_foldl_tensor h leg rest).mem_iff,
          ← hcons, hlegs]
        refine and_iff_left_of_imp fun hs ↦ ?_
        -- a tag below the number of roles is the role of some leg
        obtain ⟨b, htag, -⟩ := mem_stepsOf.mp hs
        have hlt := htags _ (List.mem_of_getElem? htag)
        refine ⟨s.role.toNat, List.mem_range.mpr (UInt8.lt_iff_toNat_lt.mp hlt), ?_⟩
        exact UInt8.ofNat_toNat.symm

end Shape

/-! ## Tasks -/

/-- A task that was tagged: its bits, its tags, and the order of arrival at a pool of `n`. -/
structure Tagged.Fits (spec : WorkflowSpec P) (table : StaffingTable) (n : Nat)
    (tagged : Tagged) : Prop where
  feasible : Harness.feasible table tagged.required tagged.tags = some true
  bits : Bits spec.base.requiredBits.start.toNat spec.base.universeBits.toNat tagged.required
  narrow : spec.base.universeBits.toNat ≤ 32
  tags : Tags spec.base.universeBits.toNat spec.roles tagged.tags
  arrival : tagged.arrival.Perm (List.range n)

/-- A draw of a task, before it is known to be feasible. -/
structure Draft.Fits (spec : WorkflowSpec P) (draft : Draft) : Prop where
  bits : Bits spec.base.requiredBits.start.toNat spec.base.universeBits.toNat draft.required
  narrow : spec.base.universeBits.toNat ≤ 32
  tags : Tags spec.base.universeBits.toNat spec.roles draft.tags

section Tasks

variable {spec : WorkflowSpec P} {table : StaffingTable}

theorem redraw_returns (hroles : spec.roles ≠ 0) (infeasible : GenerateError E) (left : Nat)
    {draft : Draft} (h : draft.Fits spec) :
    Returns (spec.redraw table infeasible left draft) fun draft ↦
      draft.Fits spec ∧ feasible table draft.required draft.tags = some true := by
  induction left generalizing draft with
  | zero =>
      rw [WorkflowSpec.redraw]
      refine (lift_returns _).bind fun ok hok ↦ ?_
      cases ok with
      | true => exact Returns.pure ⟨h, hok⟩
      | false => exact (checked_returns _).imp fun _ hne ↦ absurd hne (by simp)
  | succ left ih =>
      rw [WorkflowSpec.redraw]
      refine (lift_returns _).bind fun ok hok ↦ ?_
      cases ok with
      | true => exact Returns.pure ⟨h, hok⟩
      | false =>
          refine (drawn_returns spec.base.drawRequired_returns).bind fun required hbits ↦ ?_
          refine (drawn_returns (drawTags_returns required _ hroles)).bind fun tags htags ↦ ?_
          exact ih ⟨hbits.1, hbits.2, htags⟩

/-- Tagging the tasks of a flat draw. -/
theorem tagTasks_returns (hroles : spec.roles ≠ 0) (seed : U64) {n : Nat} {tasks : List Task}
    (htasks : ∀ task ∈ tasks, spec.base.Drawn n task) :
    Returns (tasks.zipIdx.foldlM (spec.tagTask seed table) ⟨0, 0, []⟩ : Generation E Tagging)
      fun tagging ↦ ∀ tagged ∈ tagging.tagged, tagged.Fits spec table n := by
  refine Returns.foldlM
    (fun _ (tagging : Tagging) ↦ ∀ tagged ∈ tagging.tagged, tagged.Fits spec table n)
    (fun _ task htask tagging htagging ↦ ?_) (fun _ h ↦ absurd h List.not_mem_nil)
  have hdrawn := htasks task.1 (List.fst_mem_of_mem_zipIdx htask)
  refine (drawn_returns (drawTags_returns task.1.required _ hroles)).bind fun tags htags ↦ ?_
  refine (redraw_returns hroles _ _ ⟨hdrawn.bits, hdrawn.narrow, htags⟩).bind fun draft hdraft ↦ ?_
  refine Returns.pure fun tagged htagged ↦ ?_
  rcases List.mem_append.mp htagged with htagged | htagged
  · exact htagging tagged htagged
  · cases List.mem_singleton.mp htagged
    exact ⟨hdraft.2, hdraft.1.bits, hdraft.1.narrow, hdraft.1.tags, hdrawn.arrival⟩

end Tasks

/-! ## Staffing -/

/-- Whatever is counted can be performed by some worker. -/
def StaffingTable.Backed (workers : List (UInt32 × Role)) (table : StaffingTable) : Prop :=
  ∀ step, table.isStaffable step → ∃ worker ∈ workers,
    Holds worker.1 step.bit.toNat ∧ worker.2 = step.role

theorem StaffingTable.Backed.addHolder {workers : List (UInt32 × Role)}
    {table table' : StaffingTable} (h : table.Backed workers) {worker : UInt32 × Role}
    (hworker : worker ∈ workers) {step : Step} (hbit : Holds worker.1 step.bit.toNat)
    (hrole : worker.2 = step.role) (hadd : table.addHolder step = some table') :
    table'.Backed workers := by
  unfold StaffingTable.addHolder at hadd
  split at hadd
  · cases hadd
    intro s hs
    by_cases hstep : s = step
    · exact ⟨worker, hworker, hstep ▸ hbit, hstep ▸ hrole⟩
    · refine h s ?_
      simpa only [isStaffable, if_neg hstep] using hs
  · cases hadd

theorem StaffingTable.Backed.addWorker {workers : List (UInt32 × Role)}
    {table table' : StaffingTable} (h : table.Backed workers) {worker : UInt32 × Role}
    (hworker : worker ∈ workers) (hadd : table.addWorker worker = some table') :
    table'.Backed workers := by
  unfold StaffingTable.addWorker at hadd
  refine foldlM_inv (P := StaffingTable.Backed workers) (fun b hb table table' htable hadd ↦ ?_)
    ?_ hadd
  · split at hadd
    · next hholds =>
        have hb' : b.toUInt8.toNat = b := by
          rw [UInt8.toNat_ofNat']
          have := List.mem_range.mp hb
          omega
        refine htable.addHolder hworker ?_ rfl hadd
        rw [hb']
        exact hholds
    · cases hadd
      exact htable
  · exact fun step hstep ↦ h step hstep

theorem backed_fromPool {workers : List (UInt32 × Role)} {table : StaffingTable}
    (h : StaffingTable.fromPool workers = some table) : table.Backed workers := by
  refine foldlM_inv (P := StaffingTable.Backed workers)
    (fun worker hworker table table' htable hadd ↦ htable.addWorker hworker hadd)
    (fun step hstep ↦ ?_) h
  cases of_decide_eq_true hstep

/-- A step that can be performed is performed by some agent of its role. -/
theorem exists_agent {agents : List CapabilityAgent} {roles : List Role} {table : StaffingTable}
    (h : StaffingTable.fromPool ((agents.map (·.capabilities)).zip roles) = some table)
    {step : Step} (hstep : table.isStaffable step) :
    ∃ (i : Nat) (agent : CapabilityAgent), agents[i]? = some agent ∧
      roles[i]? = some step.role ∧ Holds agent.capabilities step.bit.toNat := by
  obtain ⟨⟨mask, role⟩, hworker, hbit, hrole⟩ := backed_fromPool h step hstep
  obtain ⟨i, hi⟩ := List.mem_iff_getElem?.mp hworker
  obtain ⟨hmask, hi⟩ := List.getElem?_zip_eq_some.mp hi
  rw [List.getElem?_map] at hmask
  obtain ⟨agent, hagent, rfl⟩ := Option.map_eq_some_iff.mp hmask
  exact ⟨i, agent, hagent, hrole ▸ hi, hbit⟩

/-! ## Instances -/

/-- A task that was written: its demand is the steps of its bits. -/
structure GeneratedTask.Fits (spec : WorkflowSpec P) (table : StaffingTable) (n : Nat)
    (task : GeneratedTask W) : Prop where
  tagged : Tagged.Fits spec table n ⟨task.required, task.tags, task.arrival⟩
  steps : ∀ s, s ∈ task.demand.distinct ↔ s ∈ stepsOf task.required task.tags

/-- An instance that was generated. -/
structure GeneratedInstance.Fits (spec : WorkflowSpec P) (inst : GeneratedInstance W) : Prop where
  nonempty : spec.base.requiredBits.start ≠ 0
  table : StaffingTable.fromPool ((inst.agents.map (·.capabilities)).zip inst.roles) =
    some inst.table
  tasks : ∀ task ∈ inst.tasks, task.Fits spec inst.table inst.agents.length
  performance : ∀ rows, inst.performance = some rows →
    rows.length = inst.tasks.length ∧ ∀ row ∈ rows, row.length = inst.agents.length

section Instances

variable {engine : Catgraph E X W} {generatorsOf : X → List WorkflowGen} {spec : WorkflowSpec P}

/-- What is not refused. -/
theorem check_eq_ok : spec.check = (.ok () : Except (GenerateError E) Unit) ↔
    spec.roles ≠ 0 ∧ spec.fanoutDenom ≠ 0 ∧ spec.redrawCap ≠ 0 ∧
      spec.base.requiredBits.start ≠ 0 := by
  unfold WorkflowSpec.check
  split
  · next hroles => exact ⟨fun h ↦ (by cases h), fun h ↦ absurd hroles h.1⟩
  · next hroles =>
      split
      · next hdenom => exact ⟨fun h ↦ (by cases h), fun h ↦ absurd hdenom h.2.1⟩
      · next hdenom =>
          split
          · next hcap => exact ⟨fun h ↦ (by cases h), fun h ↦ absurd hcap h.2.2.1⟩
          · next hcap =>
              split
              · next hstart => exact ⟨fun h ↦ (by cases h), fun h ↦ absurd hstart h.2.2.2⟩
              · next hstart => exact ⟨fun _ ↦ ⟨hroles, hdenom, hcap, hstart⟩, fun _ ↦ rfl⟩

theorem writeTask_returns (h : engine.ListsGenerators generatorsOf) {table : StaffingTable}
    {n : Nat} {tagged : Tagged} (htagged : tagged.Fits spec table n) :
    Returns (spec.writeTask engine tagged) fun task ↦ task.Fits spec table n := by
  refine (drawShape_returns h spec.fanoutDenom htagged.tags.lt).bind fun written hwritten ↦ ?_
  refine Returns.pure ⟨htagged, fun s ↦ ?_⟩
  exact Demand.mem_ofSteps.trans (hwritten s)

theorem drawWorld_returns (h : engine.ListsGenerators generatorsOf) (seed : U64) :
    Returns (spec.drawWorld engine seed) (GeneratedInstance.Fits spec) := by
  refine (checked_returns _).bind fun _ hcheck ↦ ?_
  obtain ⟨hroles, -, -, hstart⟩ := check_eq_ok.mp hcheck
  refine (drawn_returns spec.base.draw_returns).bind ?_
  rintro ⟨agents, baseTasks⟩ hbase
  refine (Returns.any _).bind fun roles _ ↦ ?_
  refine (lift_returns _).bind fun table htable ↦ ?_
  refine (tagTasks_returns hroles seed hbase).bind fun tagging htagging ↦ ?_
  refine (Returns.mapM fun tagged htagged ↦
    writeTask_returns h (htagging tagged htagged)).bind fun tasks htasks ↦ ?_
  exact Returns.pure ⟨hstart, htable, forall_of_forall₂ htasks, fun rows hrows ↦ by cases hrows⟩

variable [NatCast P] [One P] [Sub P] [Div P] [LT P] [DecidableLT P]

theorem drawPerformance_returns (perf : PerformanceSpec P) (n tasks : Nat) :
    Returns (drawPerformance perf n tasks) fun rows ↦
      rows.length = tasks ∧ ∀ row ∈ rows, row.length = n := by
  refine (Returns.mapM fun _ _ ↦ Returns.any _).bind fun rho hrho ↦ ?_
  refine (Returns.mapM (R := fun _ row ↦ row.length = n) fun _ _ ↦ ?_).imp fun rows hrows ↦ ?_
  · refine (Returns.mapM fun _ _ ↦ Returns.any _).imp fun row hrow ↦ ?_
    rw [← hrow.length_eq, ← hrho.length_eq, List.length_range]
  · exact ⟨by rw [← hrows.length_eq, List.length_range], forall_of_forall₂ hrows⟩

theorem drawInstance_returns (h : engine.ListsGenerators generatorsOf) (seed : U64) :
    Returns (spec.drawInstance engine seed) (GeneratedInstance.Fits spec) := by
  refine (drawWorld_returns h seed).bind fun world hworld ↦ ?_
  split
  · exact Returns.pure hworld
  · refine (drawn_returns (drawPerformance_returns _ _ _)).bind fun rows hrows ↦ Returns.pure ?_
    refine { hworld with performance := fun rows' hrows' ↦ ?_ }
    cases hrows'
    exact hrows

theorem generate_eq_ok {seed : U64} {inst : GeneratedInstance W}
    (h : spec.generate engine seed = .ok inst) :
    ∃ rng, spec.drawInstance engine seed ⟨UInt64.ofNat seed⟩ = .ok inst rng := by
  unfold WorkflowSpec.generate at h
  cases hdraw : spec.drawInstance engine seed ⟨UInt64.ofNat seed⟩ with
  | ok inst' rng =>
      rw [hdraw] at h
      cases h
      exact ⟨rng, rfl⟩
  | error e rng =>
      rw [hdraw] at h
      cases h

end Instances

/-! ## An engine -/

namespace Terms

def source : WorkflowGen → List Role
  | .user step => [step.role]
  | .mu role => [role, role]
  | .eta _ => []
  | .delta role => [role]
  | .epsilon role => [role]

def target : WorkflowGen → List Role
  | .user step => [step.role]
  | .mu role => [role]
  | .eta role => [role]
  | .delta role => [role, role]
  | .epsilon _ => []

/-- Expressions as trees. -/
inductive Term where
  | generator (g : WorkflowGen)
  | compose (x y : Term)
  | tensor (x y : Term)

namespace Term

def source : Term → List Role
  | generator g => Terms.source g
  | compose x _ => x.source
  | tensor x y => x.source ++ y.source

def target : Term → List Role
  | generator g => Terms.target g
  | compose _ y => y.target
  | tensor x y => x.target ++ y.target

/-- The colors meet wherever expressions are composed. -/
def typed : Term → Bool
  | generator _ => true
  | compose x y => x.typed && y.typed && x.target = y.source
  | tensor x y => x.typed && y.typed

def generators : Term → List WorkflowGen
  | generator g => [g]
  | compose x y => x.generators ++ y.generators
  | tensor x y => x.generators ++ y.generators

end Term

/-- An engine that composes by width and checks the colors when they are pinned. -/
def engine : Catgraph String Term Term where
  presentation := id
  generator := .generator
  compose x y :=
    if x.target.length = y.source.length then .ok (.compose x y) else .error "width"
  tensor := .tensor
  colored source x := if x.typed && x.source = source then .ok x else .error "color"
  contentOfColored := Term.generators

theorem listsGenerators : engine.ListsGenerators Term.generators where
  generator g := .refl _
  compose {x y z} h := by
    simp only [engine] at h
    split at h
    · cases h
      exact .refl _
    · cases h
  tensor x y := .refl _
  content {source x w} h := by
    simp only [engine] at h
    split at h
    · cases h
      exact .refl _
    · cases h

def spec : WorkflowSpec ℚ where
  base :=
    { universeBits := 2, pool := ⟨2, 2⟩, capsPerAgent := ⟨2, 2⟩, trust := ⟨50, 60⟩
      tasks := 1, requiredBits := ⟨1, 2⟩ }
  roles := 1
  redrawCap := 3
  fanoutDenom := 1
  performance := some ⟨9 / 10, 1 / 10, 1 / 2⟩

end Terms

end Koalisi.Harness
