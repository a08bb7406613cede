import Koalisi.Harness.Drawn

/-!
# One stream of draws

Everything is drawn from one generator, so a draw more or less shifts all that follow.  The
performance is drawn last, a higher cap only allows more draws where none were left, and
the flat instance is drawn first.
-/

namespace Koalisi.Harness

open Koalisi.Lib Koalisi.Lib.Fallible
open Koalisi.Topology (U64)

variable {E X W P : Type}

/-! ## The cap -/

section Cap

variable {spec : WorkflowSpec P} {cap : Nat}

/-- An error is never a result. -/
theorem error_returns {α : Type} (e : GenerateError E) :
    Returns (checked (.error e) : Generation E α) fun _ ↦ False :=
  (checked_returns _).imp fun _ h ↦ by cases h

/-- With more draws left a task is drawn as before, if it was drawn. -/
theorem redraw_refines (table : StaffingTable) (infeasible infeasible' : GenerateError E)
    {left left' : Nat} (h : left ≤ left') (draft : Draft) :
    Refines (spec.redraw table infeasible left draft)
      ({ spec with redrawCap := cap }.redraw table infeasible' left' draft) := by
  induction left generalizing left' draft with
  | zero =>
      cases left' with
      | zero =>
          rw [WorkflowSpec.redraw, WorkflowSpec.redraw]
          refine (Refines.refl _).bind fun ok ↦ ?_
          cases ok with
          | true => exact Refines.refl _
          | false => exact Refines.of_never (error_returns infeasible)
      | succ left' =>
          rw [WorkflowSpec.redraw, WorkflowSpec.redraw]
          refine (Refines.refl _).bind fun ok ↦ ?_
          cases ok with
          | true => exact Refines.refl _
          | false => exact Refines.of_never (error_returns infeasible)
  | succ left ih =>
      cases left' with
      | zero => exact absurd h (Nat.not_succ_le_zero left)
      | succ left' =>
          rw [WorkflowSpec.redraw, WorkflowSpec.redraw]
          refine (Refines.refl _).bind fun ok ↦ ?_
          cases ok with
          | true => exact Refines.refl _
          | false =>
              refine (Refines.refl _).bind fun required ↦ (Refines.refl _).bind fun tags ↦ ?_
              exact ih (Nat.le_of_succ_le_succ h) _

theorem tagTask_refines (h : spec.redrawCap ≤ cap) (seed : U64) (table : StaffingTable)
    (acc : Tagging) (task : Task × Nat) :
    Refines (spec.tagTask seed table acc task : Generation E Tagging)
      ({ spec with redrawCap := cap }.tagTask seed table acc task) := by
  refine (Refines.refl _).bind fun tags ↦ ?_
  refine (redraw_refines table _ _ (Nat.sub_le_sub_right h 1) _).bind fun draft ↦ ?_
  exact Refines.refl _

theorem check_refines (h : spec.redrawCap ≤ cap) :
    Refines (checked spec.check : Generation E Unit)
      (checked { spec with redrawCap := cap }.check) := by
  intro rng u rng' hcheck
  obtain ⟨-, rfl⟩ := look_eq_ok.mp hcheck
  have hcheck : spec.check = (.ok () : Except (GenerateError E) Unit) :=
    checked_returns _ _ _ _ hcheck
  obtain ⟨hroles, hdenom, hcap, hstart⟩ := check_eq_ok.mp hcheck
  have hcap' : cap ≠ 0 := fun hzero ↦ hcap (Nat.le_zero.mp (hzero ▸ h))
  have hcheck' : { spec with redrawCap := cap }.check = (.ok () : Except (GenerateError E) Unit) :=
    check_eq_ok.mpr ⟨hroles, hdenom, hcap', hstart⟩
  refine look_eq_ok.mpr ⟨?_, rfl⟩
  rw [hcheck']
  rfl

theorem drawWorld_refines (engine : Catgraph E X W) (h : spec.redrawCap ≤ cap) (seed : U64) :
    Refines (spec.drawWorld engine seed)
      ({ spec with redrawCap := cap }.drawWorld engine seed) := by
  refine (check_refines h).bind fun _ ↦ ?_
  refine (Refines.refl _).bind ?_
  rintro ⟨agents, baseTasks⟩
  refine (Refines.refl _).bind fun roles ↦ (Refines.refl _).bind fun table ↦ ?_
  refine (Refines.foldlM (fun tagging task _ ↦ tagTask_refines h seed table tagging task)
    _).bind fun tagging ↦ ?_
  exact Refines.refl _

variable [NatCast P] [One P] [Sub P] [Div P] [LT P] [DecidableLT P]

theorem drawInstance_refines (engine : Catgraph E X W) (h : spec.redrawCap ≤ cap) (seed : U64) :
    Refines (spec.drawInstance engine seed)
      ({ spec with redrawCap := cap }.drawInstance engine seed) :=
  (drawWorld_refines engine h seed).bind fun _ ↦ Refines.refl _

end Cap

/-! ## The performance -/

theorem redraw_performance (spec : WorkflowSpec P) (performance : Option (PerformanceSpec P))
    (table : StaffingTable) (infeasible : GenerateError E) (left : Nat) (draft : Draft) :
    { spec with performance }.redraw table infeasible left draft =
      spec.redraw table infeasible left draft := by
  induction left generalizing draft with
  | zero => rfl
  | succ left ih =>
      rw [WorkflowSpec.redraw, WorkflowSpec.redraw]
      simp only [ih]
      rfl

/-- The world does not depend on the performance. -/
theorem drawWorld_performance (spec : WorkflowSpec P) (performance : Option (PerformanceSpec P))
    (engine : Catgraph E X W) (seed : U64) :
    { spec with performance }.drawWorld engine seed = spec.drawWorld engine seed := by
  have htag : { spec with performance }.tagTask seed = (spec.tagTask seed :
      StaffingTable → Tagging → Task × Nat → Generation E Tagging) := by
    funext table acc task
    simp only [WorkflowSpec.tagTask, redraw_performance]
    rfl
  simp only [WorkflowSpec.drawWorld, htag]
  rfl

theorem drawWorld_plain (spec : WorkflowSpec P) (engine : Catgraph E X W) (seed : U64) :
    Returns (spec.drawWorld engine seed) fun world ↦ world.performance = none := by
  refine (Returns.any _).bind fun _ _ ↦ (Returns.any _).bind ?_
  rintro ⟨agents, baseTasks⟩ -
  refine (Returns.any _).bind fun roles _ ↦ (Returns.any _).bind fun table _ ↦ ?_
  exact (Returns.any _).bind fun tagging _ ↦ (Returns.any _).bind fun tasks _ ↦ Returns.pure rfl

section Performance

variable [NatCast P] [One P] [Sub P] [Div P] [LT P] [DecidableLT P]

/-- Drawing the performance does not get stuck. -/
theorem drawPerformance_yields (perf : PerformanceSpec P) (n tasks : Nat) :
    Yields (drawPerformance perf n tasks) fun _ ↦ True := by
  have hunit {α : Type} (f : P → α) :
      Yields (do return f (← SplitMix64.nextUnit P) : Draw α) fun _ ↦ True :=
    (SplitMix64.nextUnit_yields P).bind fun _ _ ↦ Yields.pure trivial
  refine (Yields.mapM (R := fun _ _ ↦ True) fun _ _ ↦ hunit _).bind fun rho _ ↦ ?_
  refine (Yields.mapM (R := fun _ _ ↦ True) fun _ _ ↦ ?_).imp fun _ _ ↦ trivial
  exact (Yields.mapM (R := fun _ _ ↦ True) fun r _ ↦ hunit _).imp fun _ _ ↦ trivial

/-- The performance is all that a specification with a performance adds. -/
theorem generate_performance (spec : WorkflowSpec P) (engine : Catgraph E X W) (seed : U64) :
    (spec.generate engine seed).map (fun inst ↦ { inst with performance := none }) =
      WorkflowSpec.generate (P := P) { spec with performance := none } engine seed := by
  unfold WorkflowSpec.generate WorkflowSpec.drawInstance
  rw [bind_def, bind_def, drawWorld_performance spec none]
  cases hworld : spec.drawWorld engine seed ⟨UInt64.ofNat seed⟩ with
  | error e rng => rfl
  | ok world rng =>
      have hnone : { world with performance := none } = world := by
        have := drawWorld_plain spec engine seed _ _ _ hworld
        cases world
        cases this
        rfl
      cases hperformance : spec.performance with
      | none => exact congrArg Except.ok hnone
      | some perf =>
          obtain ⟨rows, rng', hrun, -⟩ :=
            drawPerformance_yields perf world.agents.length world.tasks.length rng
          have hdrawn := drawn_eq_ok (E := E) |>.mpr hrun
          simp only [bind_def, hdrawn]
          exact congrArg Except.ok hnone

end Performance

/-! ## The flat instance -/

section Flat

variable {spec : WorkflowSpec P} {engine : Catgraph E X W}

/-- Tagging keeps the order of arrival. -/
theorem tagTasks_arrival (seed : U64) (table : StaffingTable) (tasks : List Task) :
    Returns (tasks.zipIdx.foldlM (spec.tagTask seed table) ⟨0, 0, []⟩ : Generation E Tagging)
      fun tagging ↦ tagging.tagged.map (·.arrival) = tasks.map (·.arrival) := by
  refine (Returns.foldlM (fun front (tagging : Tagging) ↦
    tagging.tagged.map (·.arrival) = front.map (·.1.arrival))
    (fun front task _ tagging h ↦ ?_) rfl).imp fun tagging h ↦ ?_
  · refine (Returns.any _).bind fun tags _ ↦ (Returns.any _).bind fun draft _ ↦ Returns.pure ?_
    rw [List.map_append, List.map_append, h]
    rfl
  · have hfst : tasks.zipIdx.map (·.1.arrival) = (tasks.zipIdx.map Prod.fst).map (·.arrival) :=
      List.map_map.symm
    rw [h, hfst, List.zipIdx_map_fst]

theorem writeTasks_arrival (tagged : List Tagged) :
    Returns (tagged.mapM (spec.writeTask engine)) fun tasks ↦
      tasks.map (·.arrival) = tagged.map (·.arrival) := by
  refine (Returns.mapM (R := fun tagged task ↦ task.arrival = tagged.arrival)
    fun tagged _ ↦ ?_).imp fun tasks h ↦ ?_
  · exact (Returns.any _).bind fun written _ ↦ Returns.pure rfl
  · induction h with
    | nil => rfl
    | cons htask _ ih => rw [List.map_cons, List.map_cons, htask, ih]

/-- An instance and the flat instance that was drawn for it. -/
def OverFlat (flat : Instance) (inst : GeneratedInstance W) : Prop :=
  inst.agents = flat.agents ∧ inst.tasks.map (·.arrival) = flat.tasks.map (·.arrival) ∧
    inst.prefixRequired = flat.tasks.map (·.required)

theorem drawWorld_flat {seed : U64} {rng rng' : SplitMix64} {world : GeneratedInstance W}
    (h : spec.drawWorld engine seed rng = .ok world rng') :
    ∃ agents tasks rng'', spec.base.draw.run rng = some ((agents, tasks), rng'') ∧
      OverFlat ⟨seed, agents, tasks⟩ world := by
  obtain ⟨_, _, hcheck, h⟩ := bind_eq_ok.mp h
  obtain ⟨-, rfl⟩ := look_eq_ok.mp hcheck
  obtain ⟨⟨agents, tasks⟩, rng'', hbase, h⟩ := bind_eq_ok.mp h
  refine ⟨agents, tasks, rng'', drawn_eq_ok.mp hbase, ?_⟩
  refine (?_ : Returns (m := Generation E) _ (OverFlat ⟨seed, agents, tasks⟩)) _ _ _ h
  refine (Returns.any _).bind fun roles _ ↦ (Returns.any _).bind fun table _ ↦ ?_
  refine (tagTasks_arrival seed table tasks).bind fun tagging htagging ↦ ?_
  refine (writeTasks_arrival tagging.tagged).bind fun written hwritten ↦ Returns.pure ?_
  exact ⟨rfl, hwritten.trans htagging, rfl⟩

end Flat

section Together

variable [NatCast P] [One P] [Sub P] [Div P] [LT P] [DecidableLT P]

theorem drawInstance_flat {spec : WorkflowSpec P} {engine : Catgraph E X W} {seed : U64}
    {inst : GeneratedInstance W} (h : spec.generate engine seed = .ok inst) :
    ∃ flat, spec.base.generate seed = some flat ∧ OverFlat flat inst := by
  obtain ⟨rng, hdraw⟩ := generate_eq_ok h
  obtain ⟨world, rng', hworld, hdraw⟩ := bind_eq_ok.mp hdraw
  obtain ⟨agents, tasks, rng'', hbase, hover⟩ := drawWorld_flat hworld
  refine ⟨⟨seed, agents, tasks⟩, ?_, ?_⟩
  · rw [InstanceSpec.generate, hbase]
    rfl
  · refine (?_ : Returns (m := Generation E) _ (OverFlat ⟨seed, agents, tasks⟩)) _ _ _ hdraw
    cases spec.performance with
    | none => exact Returns.pure hover
    | some perf => exact (Returns.any _).bind fun rows _ ↦ Returns.pure hover

/-- **Generation is stream-stable.**  The performance adds nothing but itself, a higher cap
changes no instance that was generated, and the agents, the orders of arrival and the bits
that were drawn first are those of the flat instance. -/
theorem generation_stream_stable (engine : Catgraph E X W) (spec : WorkflowSpec P) (seed : U64) :
    (spec.generate engine seed).map (fun inst ↦ { inst with performance := none }) =
        WorkflowSpec.generate (P := P) { spec with performance := none } engine seed ∧
      (∀ cap inst, spec.redrawCap ≤ cap → spec.generate engine seed = .ok inst →
        WorkflowSpec.generate (P := P) { spec with redrawCap := cap } engine seed = .ok inst) ∧
      ∀ inst, spec.generate engine seed = .ok inst →
        ∃ flat, spec.base.generate seed = some flat ∧ inst.agents = flat.agents ∧
          inst.tasks.map (·.arrival) = flat.tasks.map (·.arrival) ∧
          inst.prefixRequired = flat.tasks.map (·.required) := by
  refine ⟨generate_performance spec engine seed, fun cap inst hcap h ↦ ?_, fun inst h ↦ ?_⟩
  · obtain ⟨rng, hdraw⟩ := generate_eq_ok h
    have hraised := drawInstance_refines engine hcap seed _ _ _ hdraw
    rw [WorkflowSpec.generate, hraised]
    rfl
  · exact drawInstance_flat h

/-- The sample under a higher cap. -/
theorem the_sample_under_a_higher_cap : ∃ inst,
    WorkflowSpec.generate { Terms.spec with redrawCap := 1000 } Terms.engine 7 = .ok inst ∧
      Terms.spec.generate Terms.engine 7 = .ok inst := by
  have hdrawn : (Terms.spec.generate Terms.engine 7).isOk = true := by decide +kernel
  cases hgenerate : Terms.spec.generate Terms.engine 7 with
  | error e =>
      rw [hgenerate] at hdrawn
      cases hdrawn
  | ok inst =>
      have hstable := generation_stream_stable Terms.engine Terms.spec 7
      exact ⟨inst, hstable.2.1 1000 inst (by decide) hgenerate, rfl⟩

end Together

end Koalisi.Harness
