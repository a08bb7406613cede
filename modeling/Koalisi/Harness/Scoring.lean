import Koalisi.Harness.Refines

/-!
# The two scorings of a run

Where it is known who performed, a run is scored twice: by the steps that its coalitions
cover, and by those that members who performed cover.  A step that is covered by a member who
performed is covered, so the second scores are never above the first ones, and no more bits
are credited for members of the role who performed than for members of the role, or for
members who performed.

The signal decides which bits a policy is told, and nothing else: a policy that does not look
at them has the same run under each.
-/

namespace Koalisi.Harness

open Koalisi.Lib Koalisi.Lib.Masks Koalisi.Lib.Fallible
open Koalisi.Topology (U64 Decision DecisionContext)

variable {σ F : Type}

/-! ## Steps -/

section Steps

variable {inst : WorkflowInstance} {members : List Nat} {step : Step} {row : List Bool}

theorem stepCoveredPerformed_iff :
    stepCoveredPerformed inst members step row = true ↔ ∃ mask, step.capabilityMask = some mask ∧
      ∃ i ∈ members, inst.roles[i]? = some step.role ∧
        (∃ agent, inst.agents[i]? = some agent ∧ agent.capabilities &&& mask ≠ 0) ∧
        memberPerformed row i = true := by
  unfold stepCoveredPerformed
  cases step.capabilityMask with
  | none => simp
  | some mask => simp [and_assoc, Option.any_eq_true]

theorem recon_stepCovered_iff :
    Recon.stepCovered inst members step = true ↔ ∃ mask, step.capabilityMask = some mask ∧
      ∃ i ∈ members, inst.roles[i]? = some step.role ∧
        ∃ agent, inst.agents[i]? = some agent ∧ agent.capabilities &&& mask ≠ 0 := by
  unfold Recon.stepCovered
  cases step.capabilityMask with
  | none => simp
  | some mask => simp [Option.any_eq_true]

/-- A step that is covered by a member who performed is covered. -/
theorem covered_of_performed (h : stepCoveredPerformed inst members step row = true) :
    Recon.stepCovered inst members step = true := by
  obtain ⟨mask, hmask, i, hi, hrole, hagent, -⟩ := stepCoveredPerformed_iff.mp h
  exact recon_stepCovered_iff.mpr ⟨mask, hmask, i, hi, hrole, hagent⟩

/-- Where all members performed, there is no difference. -/
theorem stepCoveredPerformed_eq (h : ∀ i ∈ members, memberPerformed row i = true) (step : Step) :
    stepCoveredPerformed inst members step row = Recon.stepCovered inst members step := by
  refine Bool.eq_iff_iff.mpr ⟨covered_of_performed, fun hcovered ↦ ?_⟩
  obtain ⟨mask, hmask, i, hi, hrole, hagent⟩ := recon_stepCovered_iff.mp hcovered
  exact stepCoveredPerformed_iff.mpr ⟨mask, hmask, i, hi, hrole, hagent, h i hi⟩

end Steps

/-! ## Scores -/

section Scores

variable {inst : WorkflowInstance} {task : WorkflowTask} {members : List Nat} {t : Nat}
  {performance : Option (List (List Bool))}

theorem performed_count_le :
    task.demand.distinct.countP
        (stepCoveredPerformed inst members · (performanceRow performance t)) ≤
      task.demand.distinct.countP (Recon.stepCovered inst members) :=
  List.countP_mono_left fun _ _ ↦ covered_of_performed

/-- A success of members who performed is a success. -/
theorem succeeds_of_performed (h : performedSucceeds inst performance t task members = true) :
    succeeds inst task members = true := by
  obtain ⟨hpos, hall⟩ := Bool.and_eq_true_iff.mp h
  refine Bool.and_eq_true_iff.mpr ⟨hpos, decide_eq_true ?_⟩
  exact le_antisymm List.countP_le_length ((of_decide_eq_true hall).symm.trans_le
    performed_count_le)

theorem performedEfficiency_nonneg [LE F] [Zero F] [One F] [NatCast F] [Add F] [Div F]
    (hround : RoundsInOrder F) :
    (0 : F) ≤ performedEfficiency inst performance t task members := by
  unfold performedEfficiency
  dsimp only
  split
  · exact hround.zero_le_zero
  · rename_i hne
    rw [not_or] at hne
    exact hround.div_nonneg (hround.fraction_nonneg (Nat.pos_of_ne_zero hne.2))
      (Nat.pos_of_ne_zero hne.1)

/-- Members are no more efficient by the steps that they performed. -/
theorem performedEfficiency_le [LE F] [Zero F] [One F] [NatCast F] [Add F] [Div F]
    (hround : RoundsInOrder F) :
    (performedEfficiency inst performance t task members : F) ≤ efficiency inst task members := by
  unfold performedEfficiency efficiency
  simp only [List.isEmpty_iff, ← List.length_eq_zero_iff]
  split
  · exact hround.zero_le_zero
  · rename_i hne
    rw [not_or] at hne
    have hsteps := Nat.pos_of_ne_zero hne.2
    exact hround.div_le (hround.fraction_nonneg hsteps)
      (hround.fraction_le performed_count_le le_rfl hsteps) (Nat.pos_of_ne_zero hne.1)

theorem performedSucceeds_eq
    (h : ∀ i ∈ members, memberPerformed (performanceRow performance t) i = true) :
    performedSucceeds inst performance t task members = succeeds inst task members := by
  simp only [performedSucceeds, succeeds, stepCoveredPerformed_eq h]

theorem performedEfficiency_eq [Zero F] [NatCast F] [Div F]
    (h : ∀ i ∈ members, memberPerformed (performanceRow performance t) i = true) :
    (performedEfficiency inst performance t task members : F) = efficiency inst task members := by
  simp only [performedEfficiency, efficiency, stepCoveredPerformed_eq h, List.isEmpty_iff,
    List.length_eq_zero_iff]

end Scores

/-! ## Bits -/

section Bits

/-- Mark the bits of the steps that count. -/
def mark (size : Nat) (counts : Step → Bool) (steps : List Step) (perBit : List Bool) : List Bool :=
  steps.foldl (fun perBit step ↦
    if step.bit.toNat < size && counts step then perBit.set step.bit.toNat true else perBit) perBit

theorem mark_getElem? {size : Nat} {counts : Step → Bool} {steps : List Step} {perBit : List Bool}
    (hsize : perBit.length = size) {b : Nat} :
    (mark size counts steps perBit)[b]? = some true ↔ perBit[b]? = some true ∨
      b < size ∧ ∃ step ∈ steps, step.bit.toNat = b ∧ counts step = true := by
  induction steps generalizing perBit with
  | nil => simp [mark]
  | cons step steps ih =>
      rw [mark, List.foldl_cons]
      split
      · rename_i hcounts
        obtain ⟨hlt, hcounts⟩ := Bool.and_eq_true_iff.mp hcounts
        have hset := @ih (perBit.set step.bit.toNat true) (by rw [List.length_set, hsize])
        rw [mark] at hset
        rw [hset, List.exists_mem_cons_iff, List.getElem?_set]
        by_cases hb : step.bit.toNat = b
        · subst hb
          simp_all
        · simp [hb]
      · rename_i hcounts
        have hrest := ih hsize
        rw [mark] at hrest
        rw [hrest, List.exists_mem_cons_iff]
        refine or_congr_right (and_congr_right fun hlt ↦ (or_iff_right ?_).symm)
        rintro ⟨rfl, hcounts'⟩
        exact hcounts (by rw [decide_eq_true hlt, hcounts']; rfl)

/-- From nothing, the bits of the steps that count are marked. -/
theorem mark_replicate {size : Nat} {counts : Step → Bool} {steps : List Step} {b : Nat} :
    (mark size counts steps (List.replicate size false))[b]? = some true ↔
      b < size ∧ ∃ step ∈ steps, step.bit.toNat = b ∧ counts step = true := by
  rw [mark_getElem? List.length_replicate, or_iff_right]
  intro hstart
  cases List.eq_of_mem_replicate (List.mem_of_getElem? hstart)

variable {inst : WorkflowInstance} {performance : Option (List (List Bool))} {t : Nat}
  {task : WorkflowTask} {members : List Nat} {b : Nat}

/-- A bit is signalled as a success. -/
def Credits (inst : WorkflowInstance) (signal : OutcomeSignal)
    (performance : Option (List (List Bool))) (t : Nat) (task : WorkflowTask) (members : List Nat)
    (b : Nat) : Prop :=
  ∃ bits, perBit inst signal performance t task members = some bits ∧ bits[b]? = some true

theorem credits_both_iff : Credits inst .both performance t task members b ↔
    b < task.tags.length ∧ ∃ step ∈ task.demand.distinct, step.bit.toNat = b ∧
      stepCoveredPerformed inst members step (performanceRow performance t) = true := by
  have hbits : perBit inst .both performance t task members =
      some (mark task.tags.length
        (stepCoveredPerformed inst members · (performanceRow performance t)) task.demand.distinct
        (List.replicate task.tags.length false)) := rfl
  simp only [Credits, hbits, Option.some.injEq, exists_eq_left', mark_replicate]

/-- The marks of covered steps, none of which panics. -/
theorem foldlM_mark (hpool : ∀ i ∈ members, i < inst.agents.length) (size : Nat)
    (steps : List Step) (perBit : List Bool) :
    steps.foldlM (fun perBit step ↦ do
      let b := step.bit.toNat
      if b < size then
        return if ← stepCovered inst members step then perBit.set b true else perBit
      else return perBit) perBit =
        some (mark size (Recon.stepCovered inst members) steps perBit) := by
  induction steps generalizing perBit with
  | nil => rfl
  | cons step steps ih =>
      rw [List.foldlM_cons, mark, List.foldl_cons]
      obtain ⟨covered, hcovered⟩ := exists_stepCovered hpool step
      dsimp only
      by_cases hlt : step.bit.toNat < size
      · rw [if_pos hlt, hcovered, decide_eq_true hlt, Bool.true_and, stepCovered_eq hcovered]
        exact ih _
      · rw [if_neg hlt, decide_eq_false hlt, Bool.false_and]
        exact ih _

theorem credits_roleCoverage_iff (hpool : ∀ i ∈ members, i < inst.agents.length) :
    Credits inst .roleCoverage performance t task members b ↔
      b < task.tags.length ∧ ∃ step ∈ task.demand.distinct, step.bit.toNat = b ∧
        Recon.stepCovered inst members step = true := by
  have hbits : perBit inst .roleCoverage performance t task members =
      some (mark task.tags.length (Recon.stepCovered inst members) task.demand.distinct
        (List.replicate task.tags.length false)) := foldlM_mark hpool _ _ _
  simp only [Credits, hbits, Option.some.injEq, exists_eq_left', mark_replicate]

/-- What is credited for members of the role who performed is credited for members of the
role, and for members who performed. -/
theorem Credits.of_both (hpool : ∀ i ∈ members, i < inst.agents.length)
    (h : Credits inst .both performance t task members b) :
    Credits inst .roleCoverage performance t task members b ∧
      ((perBit inst .performance performance t task members).isSome →
        Credits inst .performance performance t task members b) := by
  obtain ⟨hlt, step, hstep, rfl, hperformed⟩ := credits_both_iff.mp h
  refine ⟨(credits_roleCoverage_iff hpool).mpr
    ⟨hlt, step, hstep, rfl, covered_of_performed hperformed⟩, fun hsome ↦ ?_⟩
  obtain ⟨mask, hmask, i, hi, -, ⟨agent, hagent, hholds⟩, hrow⟩ :=
    stepCoveredPerformed_iff.mp hperformed
  obtain ⟨bits, hbits⟩ := Option.isSome_iff_exists.mp hsome
  refine ⟨bits, hbits, ?_⟩
  have hforall := forall₂_of_mapM_eq_some hbits
  have hlen : bits.length = task.tags.length := hforall.length_eq.symm.trans List.length_range
  have hbit := (List.forall₂_iff_get.mp hforall).2 step.bit.toNat
    (by rwa [List.length_range]) (by rwa [hlen])
  rw [List.get_eq_getElem, List.get_eq_getElem, List.getElem_range] at hbit
  rw [List.getElem?_eq_getElem (by rwa [hlen])]
  refine congrArg some ((any_of_anyM (q := fun i ↦ (inst.agents[i]?.any fun agent ↦
    agent.capabilities.toNat.testBit step.bit.toNat) &&
      memberPerformed (performanceRow performance t) i) (fun j _ c hc ↦ ?_) hbit).symm.trans ?_)
  · obtain ⟨agent', hagent', hc⟩ := Option.bind_eq_some_iff.mp hc
    rw [hagent', Option.any_some]
    split at hc
    · split at hc
      · rename_i hbit'
        rw [hbit', Bool.true_and, memberPerformed, hc, Option.getD_some]
      · rename_i hbit'
        cases hc
        rw [Bool.eq_false_of_not_eq_true hbit', Bool.false_and]
    · cases hc
  · refine List.any_eq_true.mpr ⟨i, hi, ?_⟩
    rw [hagent, Option.any_some, hrow, Bool.and_true]
    unfold Step.capabilityMask at hmask
    split at hmask
    · rename_i hbits
      cases hmask
      exact (and_single_ne_zero (c := step.bit.toUInt32) hbits).mp hholds
    · cases hmask

end Bits

/-! ## Runs -/

/-- What the policy makes of an outcome does not depend on the bits that are credited. -/
def Policy.IgnoresBits (policy : Policy σ F) : Prop :=
  ∀ required bits bits' members,
    policy.observeOutcome required bits members = policy.observeOutcome required bits' members

section Runs

variable {policy : Policy σ F} {inst : WorkflowInstance} {signal signal' : OutcomeSignal}
  {performance : Option (List (List Bool))}

/-- Members for whom there are outcomes are agents of the pool. -/
theorem pool_of_taskMemberOutcomes {agents : List CapabilityAgent} {members : List Nat} {t : Nat}
    {outcomes : List MemberOutcome}
    (h : taskMemberOutcomes agents members performance t = some outcomes) :
    ∀ i ∈ members, i < agents.length := by
  have hforall := (forall₂_of_mapM_eq_some h).flip
  refine forall_of_forall₂ (P := fun i ↦ i < agents.length) (hforall.imp fun outcome i hi ↦ ?_)
  obtain ⟨agent, hagent, -⟩ := Option.bind_eq_some_iff.mp hi
  exact (List.getElem?_eq_some_iff.mp hagent).1

/-- What is known of the coalition that each task ends with. -/
theorem returns_endTasks {P : WorkflowTask × Nat → List Nat → Prop}
    {tasks : List (WorkflowTask × Nat)}
    (h : ∀ task ∈ tasks, ∀ acc, Returns (endTask policy inst signal performance acc task)
      fun acc' ↦ ∃ members, acc'.1 = acc.1 ++ [members] ∧ P task members) :
    Returns (tasks.foldlM (endTask policy inst signal performance) ([], 0))
      fun acc : List (List Nat) × Nat ↦ List.Forall₂ P tasks acc.1 := by
  refine Returns.foldlM (fun front (acc : List (List Nat) × Nat) ↦ List.Forall₂ P front acc.1)
    (fun front task htask acc hacc ↦ ?_) .nil
  refine (h task htask acc).imp fun acc' hacc' ↦ ?_
  obtain ⟨members, hends, hP⟩ := hacc'
  rw [hends]
  exact List.rel_append hacc (.cons hP .nil)

/-- The coalitions at the end of the tasks are made of agents of the pool. -/
theorem inPool_of_endTasks {tasks : List (WorkflowTask × Nat)} :
    Returns (tasks.foldlM (endTask policy inst signal performance) ([], 0))
      fun acc : List (List Nat) × Nat ↦ InPool inst.agents acc.1 := by
  refine (returns_endTasks (P := fun _ members ↦ ∀ i ∈ members, i < inst.agents.length)
    fun task _ acc ↦ ?_).imp fun acc hends ↦ forall_of_forall₂ hends
  refine (Returns.any _).bind fun _ _ ↦ (Returns.any _).bind fun members _ ↦ ?_
  refine (Returns.any _).bind fun left _ ↦ (Returns.any _).bind fun bits _ ↦ ?_
  have hpool : Returns (m := EStateM Interrupt σ)
      (unwrap (taskMemberOutcomes inst.agents left.1 performance task.2))
      fun _ ↦ ∀ i ∈ left.1, i < inst.agents.length :=
    fun _ _ _ houtcomes ↦ pool_of_taskMemberOutcomes (unwrap_eq_ok.mp houtcomes).1
  refine hpool.bind fun outcomes hleft ↦ (Returns.any _).bind fun _ _ ↦ ?_
  exact Returns.pure ⟨left.1, rfl, hleft⟩

variable [Zero F] [NatCast F] [Add F] [Div F]

/-- A task is run in the same way under another signal. -/
theorem runTask_refines (hpolicy : policy.IgnoresBits) {task : WorkflowTask × Nat}
    (hsignals : Signals inst signal' performance task.2 task.1) (tally : Tally F) :
    Refines (runTask policy inst signal performance tally task)
      (runTask policy inst signal' performance tally task) := by
  intro s tally' s' h
  obtain ⟨task, t⟩ := task
  obtain ⟨_, s₁, hbegin, h⟩ := bind_eq_ok.mp h
  obtain ⟨members, s₂, hjoins, h⟩ := bind_eq_ok.mp h
  obtain ⟨⟨left, churn⟩, s₃, hleaves, h⟩ := bind_eq_ok.mp h
  obtain ⟨tally₁, s₄, hscore, h⟩ := bind_eq_ok.mp h
  obtain ⟨bits, s₅, hbits, h⟩ := bind_eq_ok.mp h
  obtain ⟨outcomes, s₆, houtcomes, h⟩ := bind_eq_ok.mp h
  obtain ⟨_, s₇, hobserve, h⟩ := bind_eq_ok.mp h
  obtain ⟨bits', hbits'⟩ :=
    exists_perBit (pool_of_taskMemberOutcomes (unwrap_eq_ok.mp houtcomes).1) hsignals
  rw [hpolicy _ bits bits'] at hobserve
  refine bind_eq_ok.mpr ⟨_, s₁, hbegin, bind_eq_ok.mpr ⟨members, s₂, hjoins, ?_⟩⟩
  refine bind_eq_ok.mpr ⟨(left, churn), s₃, hleaves, bind_eq_ok.mpr ⟨tally₁, s₄, hscore, ?_⟩⟩
  refine bind_eq_ok.mpr ⟨bits', s₅, unwrap_eq_ok.mpr ⟨hbits', (unwrap_eq_ok.mp hbits).2⟩, ?_⟩
  exact bind_eq_ok.mpr ⟨outcomes, s₆, houtcomes, bind_eq_ok.mpr ⟨_, s₇, hobserve, h⟩⟩

variable [Mul F]

/-- So is an instance that can be run under it. -/
theorem run_of_run (hpolicy : policy.IgnoresBits) {rows : Option (List (List Bool))}
    (hrows : performanceRows inst signal' = .ok rows)
    (htags : signal' = .performance → ∀ task ∈ inst.tasks, task.tags.length ≤ 32) {s s' : σ}
    {result : WorkflowResult F} (h : runWorkflowInstance policy inst signal s = .ok result s') :
    runWorkflowInstance policy inst signal' s = .ok result s' := by
  obtain ⟨performance, tally, hrows', hloop, hresult⟩ := run_eq_ok.mp h
  obtain rfl := (performanceRows_eq_ok hrows').1
  have hsignals := signals_of_performanceRows hrows htags
  obtain rfl := (performanceRows_eq_ok hrows).1
  refine run_eq_ok.mpr ⟨_, tally, hrows, ?_, hresult⟩
  exact Refines.foldlM (fun tally task htask ↦ runTask_refines hpolicy (hsignals task htask) tally)
    _ _ _ _ hloop

/-- Two runs under two signals have the same result. -/
theorem run_unique (hpolicy : policy.IgnoresBits) {s s' s'' : σ}
    {result result' : WorkflowResult F}
    (h : runWorkflowInstance policy inst signal s = .ok result s')
    (h' : runWorkflowInstance policy inst signal' s = .ok result' s'') :
    result' = result ∧ s'' = s' := by
  obtain ⟨rows, -, hrows, -⟩ := run_eq_ok.mp h
  obtain ⟨rows', -, hrows', -⟩ := run_eq_ok.mp h'
  by_cases hsignal : signal = .performance
  · by_cases hsignal' : signal' = .performance
    · rw [hsignal, ← hsignal', h'] at h
      cases h
      exact ⟨rfl, rfl⟩
    · rw [run_of_run hpolicy hrows' (fun hp ↦ absurd hp hsignal') h] at h'
      cases h'
      exact ⟨rfl, rfl⟩
  · rw [run_of_run hpolicy hrows (fun hp ↦ absurd hp hsignal) h'] at h
    cases h
    exact ⟨rfl, rfl⟩

end Runs

/-! ## The refinement -/

/-- The two scores of a run. -/
structure PerformanceRefines [LE F] (inst : WorkflowInstance) (ends : List (List Nat))
    (result : WorkflowResult F) (scored : PerformanceScored F) : Prop where
  successRate : scored.successRate ≤ result.successRate
  meanCovEff : scored.meanCovEff ≤ result.meanCovEff
  /-- There is no difference where every member performed. -/
  all_performed :
    (∀ (t : Nat) (members : List Nat), ends[t]? = some members →
      ∀ i ∈ members, memberPerformed (performanceRow inst.performance t) i = true) →
    scored.successRate = result.successRate ∧ scored.meanCovEff = result.meanCovEff

section Refinement

variable [LE F] [Zero F] [One F] [NatCast F] [Add F] [Mul F] [Div F]
variable {policy : Policy σ F} {inst : WorkflowInstance} {signal : OutcomeSignal}

omit [LE F] [Zero F] [One F] [NatCast F] [Add F] [Mul F] [Div F] in
/-- The coalition of a task has its number. -/
theorem getElem?_of_mem_zip {ends : List (List Nat)} {p : (WorkflowTask × Nat) × List Nat}
    (hp : p ∈ inst.tasks.zipIdx.zip ends) : ends[p.1.2]? = some p.2 := by
  obtain ⟨k, hk⟩ := List.mem_iff_getElem?.mp hp
  obtain ⟨htask, hmembers⟩ := List.getElem?_zip_eq_some.mp hk
  obtain ⟨task, -, heq⟩ := Option.map_eq_some_iff.mp (List.getElem?_zipIdx ▸ htask)
  rw [← heq, Nat.zero_add]
  exact hmembers

/-- The scores of the tasks that were run, task by task. -/
theorem performanceRefines_of_runTasks (hround : RoundsInOrder F) {tally : Tally F} {s s' : σ}
    (hruns : inst.tasks.zipIdx.foldlM (runTask policy inst signal inst.performance)
      { successCount := 0, covEffSum := 0, performedSuccessCount := 0, performedCovEffSum := 0,
        churn := 0 } s = .ok tally s') :
    ∃ ends, ends.length = inst.tasks.length ∧
      inst.tasks.zipIdx.foldlM (endTask policy inst signal inst.performance) ([], 0) s =
        .ok (ends, tally.churn) s' ∧
      ∀ scored, (WorkflowResult.ofTally inst inst.performance tally).performanceScored =
        some scored →
        PerformanceRefines inst ends (.ofTally inst inst.performance tally) scored := by
  obtain ⟨ends, hlength, hends, hsuccess, hsum, hperformed⟩ := endTasks_of_runTasks hruns []
  rw [List.nil_append] at hends
  have hzip : (inst.tasks.zipIdx.map Prod.fst).zip ends =
      (inst.tasks.zipIdx.zip ends).map (Prod.map Prod.fst id) := List.zip_map_left ..
  rw [hzip, List.countP_map, Nat.zero_add] at hsuccess
  rw [hzip, List.foldl_map] at hsum
  refine ⟨ends, hlength.trans List.length_zipIdx, hends, fun scored hscored ↦ ?_⟩
  obtain ⟨rows, hrows, rfl⟩ := Option.map_eq_some_iff.mp hscored
  obtain ⟨hcount, heff⟩ := hperformed (by rw [hrows]; rfl)
  rw [Nat.zero_add] at hcount
  refine ⟨?_, ?_, fun hall ↦ ?_⟩
  · have hle : tally.performedSuccessCount ≤ tally.successCount := by
      rw [hcount, hsuccess]
      exact List.countP_mono_left fun p _ ↦ succeeds_of_performed
    simp only [WorkflowResult.ofTally, PerformanceScored.fromSums]
    by_cases htasks : inst.tasks.length = 0
    · rw [if_pos htasks, if_pos htasks]
      exact hround.zero_le_zero
    · rw [if_neg htasks, if_neg htasks]
      exact hround.fraction_le hle le_rfl (Nat.pos_of_ne_zero htasks)
  · have hle := foldl_add_le hround (l := inst.tasks.zipIdx.zip ends)
      (f := fun p ↦ performedEfficiency inst inst.performance p.1.2 p.1.1 p.2)
      (g := fun p ↦ efficiency inst p.1.1 p.2) (fun p _ ↦ performedEfficiency_nonneg hround)
      (fun p _ ↦ performedEfficiency_le hround) hround.zero_le_zero hround.zero_le_zero
    simp only [WorkflowResult.ofTally, PerformanceScored.fromSums]
    by_cases htasks : inst.tasks.length = 0
    · rw [if_pos htasks, if_pos htasks]
      exact hround.zero_le_zero
    · rw [if_neg htasks, if_neg htasks, heff, hsum]
      exact hround.div_le hle.1 hle.2 (Nat.pos_of_ne_zero htasks)
  · have hmembers : ∀ p ∈ inst.tasks.zipIdx.zip ends, ∀ i ∈ p.2,
        memberPerformed (performanceRow inst.performance p.1.2) i = true :=
      fun p hp ↦ hall p.1.2 p.2 (getElem?_of_mem_zip hp)
    have hcount' : tally.performedSuccessCount = tally.successCount := by
      rw [hcount, hsuccess]
      exact List.countP_congr fun p hp ↦ by rw [performedSucceeds_eq (hmembers p hp)]; rfl
    have hsum' : tally.performedCovEffSum = tally.covEffSum := by
      rw [heff, hsum]
      refine List.foldl_ext _ _ _ fun sum p hp ↦ ?_
      rw [performedEfficiency_eq (hmembers p hp)]
      rfl
    rw [hcount', hsum']
    exact ⟨rfl, rfl⟩

/-- **Performance scoring refines primary scoring.**  Take any run that ends with a result.
The scores by what was performed, if there are any, are at most the primary ones, and equal
where every member performed; at the end of each task, a bit that is credited for a member of
the role who performed is credited for a member of the role, and also, if that can be signalled,
for a member who performed.  With a policy that does not look at the bits, a run from the same
state has the same result under every signal, and there is one under every signal that the
instance can be run with. -/
theorem performance_scoring_refines (hround : RoundsInOrder F) (policy : Policy σ F)
    (inst : WorkflowInstance) (signal : OutcomeSignal) {s s' : σ} {result : WorkflowResult F}
    (h : runWorkflowInstance policy inst signal s = .ok result s') :
    (∃ ends, coalitions policy inst signal s = .ok (ends, result.churn) s' ∧
      ends.length = inst.tasks.length ∧
      (∀ scored, result.performanceScored = some scored →
        PerformanceRefines inst ends result scored) ∧
      ∀ (t : Nat) (task : WorkflowTask) (members : List Nat),
        inst.tasks[t]? = some task → ends[t]? = some members →
        ∀ b, Credits inst .both inst.performance t task members b →
          Credits inst .roleCoverage inst.performance t task members b ∧
            ((perBit inst .performance inst.performance t task members).isSome →
              Credits inst .performance inst.performance t task members b)) ∧
    (policy.IgnoresBits →
      (∀ (signal' : OutcomeSignal) (result' : WorkflowResult F) (s'' : σ),
        runWorkflowInstance policy inst signal' s = .ok result' s'' →
          result' = result ∧ s'' = s') ∧
      ∀ (signal' : OutcomeSignal) (rows : Option (List (List Bool))),
        performanceRows inst signal' = .ok rows →
        (signal' = .performance → ∀ task ∈ inst.tasks, task.tags.length ≤ 32) →
          runWorkflowInstance policy inst signal' s = .ok result s') := by
  constructor
  · obtain ⟨performance, tally, hrows, hruns, rfl⟩ := run_eq_ok.mp h
    obtain rfl := (performanceRows_eq_ok hrows).1
    obtain ⟨ends, hlength, hends, hscored⟩ := performanceRefines_of_runTasks hround hruns
    have hpool : InPool inst.agents ends :=
      inPool_of_endTasks _ _ _ hends
    refine ⟨ends, ?_, hlength, hscored, fun t task members _ hmembers b hb ↦ ?_⟩
    · refine bind_eq_ok.mpr ⟨inst.performance, s, look_eq_ok.mpr ⟨?_, rfl⟩, hends⟩
      rw [hrows]
      rfl
    · exact hb.of_both (hpool members (List.mem_of_getElem? hmembers))
  · exact fun hpolicy ↦ ⟨fun signal' result' s'' h' ↦ run_unique hpolicy h h',
      fun signal' rows hrows htags ↦ run_of_run hpolicy hrows htags h⟩

end Refinement

/-- One of the two agents does not perform on the second task.  The coalitions cover more than
is performed; the policy ignores that, and has the same result under another signal. -/
theorem the_sample_is_scored_twice :
    ∃ (result : WorkflowResult ℚ) (scored : PerformanceScored ℚ) (asked : List Question),
      runWorkflowInstance (Question.policy Sample.respond) Sample.inst .both [] =
        .ok result asked ∧
      result.performanceScored = some scored ∧ scored.meanCovEff = 1 / 4 ∧
      result.meanCovEff = 3 / 4 ∧ scored.meanCovEff ≤ result.meanCovEff ∧
      runWorkflowInstance (Question.policy Sample.respond) Sample.inst .roleCoverage [] =
        .ok result asked := by
  have hcheck : ∃ result : WorkflowResult ℚ, ∃ scored : PerformanceScored ℚ,
      ∃ asked : List Question,
        runWorkflowInstance (Question.policy Sample.respond) Sample.inst .both [] =
          .ok result asked ∧ result.performanceScored = some scored ∧
          scored.meanCovEff = 1 / 4 ∧ result.meanCovEff = 3 / 4 :=
    ⟨_, _, _, rfl, rfl, by decide +kernel, by decide +kernel⟩
  obtain ⟨result, scored, asked, hrun, hscored, hquarter, hthree⟩ := hcheck
  obtain ⟨⟨ends, -, -, hrefines, -⟩, hsame⟩ := performance_scoring_refines roundsInOrder
    (Question.policy Sample.respond) Sample.inst .both hrun
  refine ⟨result, scored, asked, hrun, hscored, hquarter, hthree,
    (hrefines scored hscored).meanCovEff, ?_⟩
  exact (hsame fun _ _ _ _ ↦ rfl).2 .roleCoverage _ rfl fun hsignal ↦ nomatch hsignal

end Koalisi.Harness
