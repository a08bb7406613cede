import Mathlib.Data.List.Sort
import Koalisi.Harness.Agreement
import Koalisi.Harness.Drawn

/-!
# Generated instances can be solved

The steps that a generated task demands are its required bits, and each of them has a
holder of its role in the pool.  So the whole pool covers the demand: a policy that takes
everyone in and lets nobody leave succeeds at every task.
-/

namespace Koalisi.Harness

open Koalisi.Lib Koalisi.Lib.Masks Koalisi.Lib.Fallible
open Koalisi.Topology (U64 Decision DecisionContext)

variable {E X W P σ F α : Type}

/-! ## Demands -/

theorem capabilityMask_eq {step : Step} (h : step.bit.toNat < 32) :
    step.capabilityMask = some (1 <<< step.bit.toUInt32) := if_pos h

theorem holds_capabilityMask {step : Step} {mask : UInt32} (h : step.capabilityMask = some mask)
    (b : Nat) : Holds mask b = decide (step.bit.toNat = b) := by
  unfold Step.capabilityMask at h
  split at h
  · next hlt =>
      cases h
      exact holds_single hlt
  · cases h

/-- The bits of a demand are those of its steps. -/
theorem holds_requiredMask {demand : Demand} {b : Nat} :
    Holds (requiredMask demand) b ↔ b < 32 ∧ ∃ s ∈ demand.distinct, s.bit.toNat = b := by
  rw [requiredMask, holds_foldl_or, holds_zero, Bool.false_or, List.any_eq_true]
  constructor
  · rintro ⟨mask, hmask, hb⟩
    obtain ⟨s, hs, hmask⟩ := List.mem_filterMap.mp hmask
    refine ⟨lt_of_holds hb, s, hs, ?_⟩
    rw [holds_capabilityMask hmask] at hb
    exact of_decide_eq_true hb
  · rintro ⟨hb, s, hs, rfl⟩
    refine ⟨_, List.mem_filterMap.mpr ⟨s, hs, capabilityMask_eq hb⟩, ?_⟩
    rw [holds_capabilityMask (capabilityMask_eq hb)]
    exact decide_eq_true rfl

section Tasks

variable {spec : WorkflowSpec P} {table : StaffingTable} {n : Nat} {task : GeneratedTask W}

/-- Every required bit has a step. -/
theorem GeneratedTask.Fits.exists_step (h : task.Fits spec table n) {b : Nat}
    (hb : Holds task.required b) :
    ∃ s ∈ task.demand.distinct, s.bit.toNat = b ∧ task.tags[b]? = some s.role := by
  have hlt : b < task.tags.length := by
    rw [h.tagged.tags.length]
    exact h.tagged.bits.lt b hb
  have hbyte : (UInt8.ofNat b).toNat = b := by
    rw [UInt8.toNat_ofNat']
    have := lt_of_holds hb
    omega
  have htag := List.getElem?_eq_getElem hlt
  exact ⟨⟨UInt8.ofNat b, task.tags[b]⟩, (h.steps _).mpr (mem_stepsOf.mpr ⟨b, htag, hb, hbyte⟩),
    hbyte, htag⟩

/-- Every step has a required bit. -/
theorem GeneratedTask.Fits.holds_step (h : task.Fits spec table n) {s : Step}
    (hs : s ∈ task.demand.distinct) :
    Holds task.required s.bit.toNat ∧ task.tags[s.bit.toNat]? = some s.role := by
  obtain ⟨b, htag, hb, rfl⟩ := mem_stepsOf.mp ((h.steps s).mp hs)
  exact ⟨hb, htag⟩

theorem GeneratedTask.Fits.requiredMask_eq (h : task.Fits spec table n) :
    requiredMask task.demand = task.required := by
  refine ext fun b ↦ Bool.eq_iff_iff.mpr ?_
  rw [holds_requiredMask]
  constructor
  · rintro ⟨-, s, hs, rfl⟩
    exact (h.holds_step hs).1
  · intro hb
    obtain ⟨s, hs, hbit, -⟩ := h.exists_step hb
    exact ⟨lt_of_holds hb, s, hs, hbit⟩

/-- The bits of the steps are the required bits, each of them once. -/
theorem GeneratedTask.Fits.distinct_eq (h : task.Fits spec table n) :
    task.demand.distinct.map (·.bit.toNat) = (List.range 32).filter (Holds task.required) := by
  refine List.Pairwise.eq_of_mem_iff (r := (· < ·)) ?_ ?_ fun b ↦ ?_
  · refine List.pairwise_map.mpr (task.demand.ascending.imp_of_mem fun {s s'} hs hs' hbefore ↦ ?_)
    rcases hbefore with hbit | ⟨hbit, hrole⟩
    · exact UInt8.lt_iff_toNat_lt.mp hbit
    · -- two steps of one bit have its tag as their role
      have htag := (h.holds_step hs).2.symm.trans (hbit ▸ (h.holds_step hs').2)
      rw [Option.some.inj htag] at hrole
      exact absurd hrole (UInt8.lt_irrefl _)
  · exact List.pairwise_lt_range.filter _
  · rw [List.mem_map, List.mem_filter, List.mem_range]
    constructor
    · rintro ⟨s, hs, rfl⟩
      have hb := (h.holds_step hs).1
      exact ⟨lt_of_holds hb, hb⟩
    · rintro ⟨-, hb⟩
      obtain ⟨s, hs, hbit, -⟩ := h.exists_step hb
      exact ⟨s, hs, hbit⟩

end Tasks

/-! ## Everyone joins -/

/-- A policy that always joins, never leaves and does not panic. -/
structure Policy.Eager (policy : Policy σ F) : Prop where
  joins (agent : CapabilityAgent) (coalition : List CapabilityAgent) (ctx : DecisionContext) :
    Yields (policy.shouldJoin agent coalition ctx) (·.act = true)
  stays (agent : CapabilityAgent) (coalition : List CapabilityAgent) (ctx : DecisionContext) :
    Yields (policy.shouldLeave agent coalition ctx) (·.act = false)
  begins (start : TaskStart) : Yields (policy.beginTask start) fun _ ↦ True
  observes (required : UInt32) (bits : List Bool) (members : List MemberOutcome) :
    Yields (policy.observeOutcome required bits members) fun _ ↦ True

section Run

variable {s : σ} {policy : Policy σ F} {agents : List CapabilityAgent} {ctx : DecisionContext}

theorem ends_call {x : StateT σ Option α} {Q : α → Prop} (h : Yields x Q) :
    Ends (call x) s fun a _ ↦ Q a := by
  obtain ⟨a, t, hx, ha⟩ := h s
  exact ⟨a, t, call_eq_ok.mpr hx, ha⟩

theorem ends_unwrap {x : Option α} {a : α} (h : x = some a) :
    Ends (unwrap x) s fun b _ ↦ b = a :=
  ⟨a, s, unwrap_eq_ok.mpr ⟨h, rfl⟩, rfl⟩

theorem ends_views {members : List Nat} (h : ∀ i ∈ members, i < agents.length) :
    Ends (views agents members) s fun _ _ ↦ True := by
  obtain ⟨coalition, hviews⟩ := exists_views h
  exact (ends_unwrap hviews).imp fun _ _ _ ↦ trivial

theorem ends_askJoin (h : policy.Eager) {members : List Nat} {candidate : Nat}
    (hmembers : ∀ i ∈ members, i < agents.length) (hcandidate : candidate < agents.length) :
    Ends (askJoin policy agents ctx members candidate) s
      fun members' _ ↦ members' = members ++ [candidate] := by
  refine (ends_views hmembers).bind fun coalition t _ ↦ ?_
  refine (ends_unwrap (List.getElem?_eq_getElem hcandidate)).bind fun agent t _ ↦ ?_
  refine (ends_call (h.joins agent coalition ctx)).bind fun decision t hact ↦ ends_pure ?_
  rw [if_pos hact]

/-- Everyone who arrives is a member. -/
theorem ends_joins (h : policy.Eager) {arrival : List Nat}
    (harrival : ∀ i ∈ arrival, i < agents.length) :
    Ends (joins policy agents ctx arrival) s fun members _ ↦ members = arrival := by
  cases arrival with
  | nil => exact ends_pure rfl
  | cons first arrivals =>
      refine ends_foldlM (fun front _ members _ ↦ members = first :: front)
        (fun front candidate rest members t hsplit hmembers ↦ ?_) rfl
      subst hmembers
      refine ends_askJoin h (fun i hi ↦ harrival i ?_) (harrival candidate ?_)
      · rw [hsplit, ← List.cons_append]
        exact List.mem_append_left _ hi
      · rw [hsplit, ← List.cons_append]
        exact List.mem_append_right _ List.mem_cons_self

theorem ends_askLeave (h : policy.Eager) {members : List Nat} {churn idx : Nat}
    (hmembers : ∀ i ∈ members, i < agents.length) (hidx : idx < agents.length) :
    Ends (askLeave policy agents ctx (members, churn) idx) s fun acc _ ↦
      acc = (members, churn) := by
  simp only [askLeave]
  cases members.findIdx? (· = idx) with
  | none => exact ends_pure rfl
  | some pos =>
      refine (ends_views hmembers).bind fun coalition t _ ↦ ?_
      refine (ends_unwrap (List.getElem?_eq_getElem hidx)).bind fun agent t _ ↦ ?_
      refine (ends_call (h.stays agent coalition ctx)).bind fun decision t hact ↦ ends_pure ?_
      rw [hact]
      rfl

/-- Nobody leaves. -/
theorem ends_leaves (h : policy.Eager) {arrival members : List Nat} {churn : Nat}
    (harrival : ∀ i ∈ arrival, i < agents.length) (hmembers : ∀ i ∈ members, i < agents.length) :
    Ends (leaves policy agents ctx arrival members churn) s fun acc _ ↦ acc = (members, churn) := by
  refine ends_foldlM (fun _ _ acc _ ↦ acc = (members, churn))
    (fun front idx rest acc t hsplit hacc ↦ ?_) rfl
  subst hacc
  refine ends_askLeave h hmembers (harrival idx ?_)
  rw [hsplit]
  exact List.mem_append_right _ List.mem_cons_self

/-! ## Every step is covered -/

theorem anyM_eq_true {p : α → Option Bool} {l : List α} (h : ∀ a ∈ l, ∃ c, p a = some c) {a : α}
    (ha : a ∈ l) (hpa : p a = some true) : l.anyM p = some true := by
  obtain ⟨b, hb⟩ := exists_anyM h
  have hany := any_of_anyM (q := fun a ↦ p a = some true) (fun a _ c hc ↦ by rw [hc]; simp) hb
  rw [hb, ← hany]
  exact congrArg some (List.any_eq_true.mpr ⟨a, ha, decide_eq_true hpa⟩)

theorem countM_eq_length {p : α → Option Bool} {l : List α} (h : ∀ a ∈ l, p a = some true) :
    countM p l = some l.length := by
  obtain ⟨n, hn⟩ := exists_countM fun a ha ↦ ⟨true, h a ha⟩
  have hcount := countP_of_countM (q := fun _ ↦ true)
    (fun a ha c hc ↦ Option.some.inj ((h a ha).symm.trans hc)) hn
  rw [hn, ← hcount]
  exact congrArg some (List.countP_eq_length.mpr fun _ _ ↦ rfl)

/-- A step with a holder of its role among the members is covered. -/
theorem stepCovered_eq_true {inst : WorkflowInstance} {members : List Nat} {step : Step}
    (hmembers : ∀ i ∈ members, i < inst.agents.length) {i : Nat} {agent : CapabilityAgent}
    (hi : i ∈ members) (hagent : inst.agents[i]? = some agent)
    (hrole : inst.roles[i]? = some step.role) (hholds : Holds agent.capabilities step.bit.toNat) :
    stepCovered inst members step = some true := by
  have hbit := lt_of_holds hholds
  unfold stepCovered
  rw [capabilityMask_eq hbit]
  refine anyM_eq_true (fun i hi ↦ ?_) hi ?_
  · split
    · rw [List.getElem?_eq_getElem (hmembers i hi)]
      exact ⟨_, rfl⟩
    · exact ⟨false, rfl⟩
  · rw [if_pos hrole, hagent]
    refine congrArg some (decide_eq_true ?_)
    exact (and_single_ne_zero (c := step.bit.toUInt32) hbit).mpr hholds

/-- A covered task counts as a success. -/
theorem exists_success [Zero F] [NatCast F] [Add F] [Div F] {inst : WorkflowInstance}
    {performance : Option (List (List Bool))} {t : Nat} {task : WorkflowTask} {members : List Nat}
    (churn : Nat) (tally : Tally F) (hne : task.demand.distinct ≠ [])
    (hcovered : ∀ step ∈ task.demand.distinct, stepCovered inst members step = some true) :
    ∃ tally', scoreTask inst performance t task members churn tally = some tally' ∧
      tally'.successCount = tally.successCount + 1 := by
  have hlen : 0 < task.demand.distinctLen := List.length_pos_iff.mpr hne
  have hcompleted : (decide (0 < task.demand.distinctLen) &&
      decide (task.demand.distinct.length = task.demand.distinctLen)) = true := by
    rw [decide_eq_true hlen]
    exact decide_eq_true rfl
  rw [scoreTask, countM_eq_length hcovered]
  cases performance with
  | none => exact ⟨_, rfl, if_pos hcompleted⟩
  | some rows => exact ⟨_, rfl, if_pos hcompleted⟩

section Tally

variable [Zero F] [NatCast F] [Add F] [Div F] {inst : WorkflowInstance} {signal : OutcomeSignal}
  {performance : Option (List (List Bool))}

/-- A task that the whole pool covers succeeds. -/
theorem ends_runTask (h : policy.Eager) {task : WorkflowTask} {t : Nat} {tally : Tally F}
    (harrival : ∀ i ∈ task.arrival, i < inst.agents.length)
    (hne : task.demand.distinct ≠ [])
    (hcovered : ∀ step ∈ task.demand.distinct, stepCovered inst task.arrival step = some true)
    (hsignals : Signals inst signal performance t task) :
    Ends (runTask policy inst signal performance tally (task, t)) s
      fun tally' _ ↦ tally'.successCount = tally.successCount + 1 := by
  refine (ends_call (h.begins _)).bind fun _ s _ ↦ ?_
  refine (ends_joins h harrival).bind fun members s hmembers ↦ ?_
  subst hmembers
  refine (ends_leaves h harrival harrival).bind fun acc s hacc ↦ ?_
  subst hacc
  obtain ⟨tally', hscore, hsuccess⟩ := exists_success tally.churn tally hne hcovered
  refine (ends_unwrap hscore).bind fun tally' s htally ↦ ?_
  subst htally
  obtain ⟨bits, hbits⟩ := exists_perBit harrival hsignals
  refine (ends_unwrap hbits).bind fun bits s _ ↦ ?_
  obtain ⟨outcomes, houtcomes⟩ := exists_taskMemberOutcomes harrival performance
  refine (ends_unwrap houtcomes).bind fun outcomes s _ ↦ ?_
  exact (ends_call (h.observes _ _ _)).bind fun _ _ _ ↦ ends_pure hsuccess

/-- Every task succeeds if the whole pool covers it. -/
theorem ends_run [Mul F] [One F] (hone : ∀ n : Nat, 0 < n → (n : F) / (n : F) = 1)
    (h : policy.Eager) (hrows : performanceRows inst signal = .ok performance)
    (hne : inst.tasks ≠ [])
    (htasks : ∀ t task, inst.tasks[t]? = some task →
      (∀ i ∈ task.arrival, i < inst.agents.length) ∧ task.demand.distinct ≠ [] ∧
      (∀ step ∈ task.demand.distinct, stepCovered inst task.arrival step = some true) ∧
      Signals inst signal performance t task) :
    Ends (runWorkflowInstance policy inst signal) s fun result _ ↦
      result.successRate = (1 : F) := by
  have hloop : Ends (inst.tasks.zipIdx.foldlM (runTask policy inst signal performance)
      { successCount := 0, covEffSum := 0, performedSuccessCount := 0,
        performedCovEffSum := 0, churn := 0 }) s
      fun (tally : Tally F) _ ↦ tally.successCount = inst.tasks.length := by
    refine (ends_foldlM (fun front _ (tally : Tally F) _ ↦ tally.successCount = front.length)
      (fun front task rest tally s hsplit htally ↦ ?_) rfl).imp fun tally _ htally ↦ ?_
    · have hmem : task ∈ inst.tasks.zipIdx := by
        rw [hsplit]
        exact List.mem_append_right _ List.mem_cons_self
      obtain ⟨harrival, hsome, hcovered, hsignals⟩ :=
        htasks task.2 task.1 (List.mem_zipIdx_iff_getElem?.mp hmem)
      refine (ends_runTask h harrival hsome hcovered hsignals).imp fun tally' _ hsuccess ↦ ?_
      rw [hsuccess, htally, List.length_append, List.length_singleton]
    · rw [htally, List.length_zipIdx]
  obtain ⟨tally, s', hrun, hsuccess⟩ := hloop
  refine ⟨_, s', run_eq_ok.mpr ⟨performance, tally, hrows, hrun, rfl⟩, ?_⟩
  have hlen : 0 < inst.tasks.length := List.length_pos_iff.mpr hne
  simp only [WorkflowResult.ofTally, if_neg (Nat.ne_of_gt hlen), hsuccess]
  exact hone _ hlen

end Tally

end Run

/-! ## Generated instances -/

/-- What a task of a generated instance is like. -/
structure GeneratedInstance.Solvable (inst : GeneratedInstance W) (task : GeneratedTask W) :
    Prop where
  /-- The task passes the check of the generator. -/
  feasible : Harness.feasible inst.table task.required task.tags = some true
  /-- Every required bit is held by an agent whose role is the tag of the bit. -/
  staffed : ∀ b, Holds task.required b → ∃ (i : Nat) (agent : CapabilityAgent) (role : Role),
    inst.agents[i]? = some agent ∧ inst.roles[i]? = some role ∧ task.tags[b]? = some role ∧
      Holds agent.capabilities b
  requiredMask : Harness.requiredMask task.demand = task.required
  /-- There is one distinct step for each required bit. -/
  distinct : task.demand.distinct.map (·.bit.toNat) = (List.range 32).filter (Holds task.required)
  arrival : task.arrival.Perm (List.range inst.agents.length)

section Instances

variable {spec : WorkflowSpec P} {inst : GeneratedInstance W}

theorem GeneratedInstance.Fits.solvable (h : inst.Fits spec) {task : GeneratedTask W}
    (htask : task ∈ inst.tasks) : inst.Solvable task := by
  have hfits := h.tasks task htask
  refine ⟨hfits.tagged.feasible, fun b hb ↦ ?_, hfits.requiredMask_eq, hfits.distinct_eq,
    hfits.tagged.arrival⟩
  obtain ⟨step, hstep, rfl, htag⟩ := hfits.exists_step hb
  obtain ⟨i, agent, hagent, hrole, hholds⟩ := exists_agent h.table
    (staffable_of_feasible hfits.tagged.feasible ((hfits.steps step).mp hstep))
  exact ⟨i, agent, step.role, hagent, hrole, htag, hholds⟩

/-- The whole pool covers a generated task. -/
theorem GeneratedInstance.Fits.covered (h : inst.Fits spec) {task : GeneratedTask W}
    (htask : task ∈ inst.tasks) {step : Step} (hstep : step ∈ task.demand.distinct) :
    stepCovered inst.toWorkflowInstance task.arrival step = some true := by
  have hfits := h.tasks task htask
  have harrival := hfits.tagged.arrival
  obtain ⟨i, agent, hagent, hrole, hholds⟩ := exists_agent h.table
    (staffable_of_feasible hfits.tagged.feasible ((hfits.steps step).mp hstep))
  obtain ⟨hi, -⟩ := List.getElem?_eq_some_iff.mp hagent
  exact stepCovered_eq_true (fun j hj ↦ List.mem_range.mp (harrival.mem_iff.mp hj))
    (harrival.mem_iff.mpr (List.mem_range.mpr hi)) hagent hrole hholds

/-- A generated task demands something. -/
theorem GeneratedInstance.Fits.demands (h : inst.Fits spec) {task : GeneratedTask W}
    (htask : task ∈ inst.tasks) : task.demand.distinct ≠ [] := by
  have hfits := h.tasks task htask
  have hstart : 0 < spec.base.requiredBits.start.toNat :=
    Nat.pos_of_ne_zero fun hzero ↦ h.nonempty (UInt32.toNat.inj hzero)
  obtain ⟨b, hb⟩ := exists_holds (Nat.lt_of_lt_of_le hstart hfits.tagged.bits.enough)
  obtain ⟨step, hstep, -⟩ := hfits.exists_step hb
  exact List.ne_nil_of_mem hstep

/-- The performance draw is in shape. -/
theorem GeneratedInstance.Fits.performanceRows_eq (h : inst.Fits spec) {signal : OutcomeSignal}
    (hsignal : signal.needsPerformance = true → inst.performance.isSome) :
    performanceRows inst.toWorkflowInstance signal = .ok inst.performance := by
  unfold performanceRows
  cases hperformance : inst.performance with
  | none =>
      rw [hperformance] at hsignal
      simp only [GeneratedInstance.toWorkflowInstance, hperformance]
      refine if_neg fun hneeds ↦ ?_
      cases hsignal hneeds
  | some rows =>
      obtain ⟨hrows, hrow⟩ := h.performance rows hperformance
      simp only [GeneratedInstance.toWorkflowInstance, hperformance, List.length_map]
      refine if_neg ?_
      rintro (hne | ⟨row, hmem, hne⟩)
      · exact hne hrows
      · exact hne (hrow row hmem)

/-- The outcome of a generated task can be signalled. -/
theorem GeneratedInstance.Fits.signals (h : inst.Fits spec) {signal : OutcomeSignal}
    (hsignal : signal.needsPerformance = true → inst.performance.isSome) {t : Nat}
    {task : GeneratedTask W} (htask : inst.tasks[t]? = some task) :
    Signals inst.toWorkflowInstance signal inst.performance t task.toWorkflowTask := by
  rintro rfl
  have hfits := h.tasks task (List.mem_of_getElem? htask)
  refine ⟨?_, ?_⟩
  · rw [hfits.tagged.tags.length]
    exact hfits.tagged.narrow
  · obtain ⟨rows, hrows⟩ := Option.isSome_iff_exists.mp (hsignal rfl)
    obtain ⟨hlen, hrow⟩ := h.performance rows hrows
    have ht : t < rows.length := hlen ▸ (List.getElem?_eq_some_iff.mp htask).1
    rw [performanceRow, hrows, Option.bind_some, List.getElem?_eq_getElem ht, Option.getD_some]
    exact hrow _ (List.getElem_mem ht)

end Instances

/-- A positive count divided by itself is one, as it is of floating-point numbers. -/
def CountsDivide (F : Type) [NatCast F] [Div F] [One F] : Prop :=
  ∀ n : Nat, 0 < n → (n : F) / (n : F) = 1

/-- **Generated instances can be solved.**  Every task of a generated instance is
role-feasible, its demand names one step for each required bit, and its arrivals are the
pool; a policy that takes everyone in and lets nobody leave succeeds at every task. -/
theorem generated_instance_solvable [NatCast P] [One P] [Sub P] [Div P] [LT P] [DecidableLT P]
    {engine : Catgraph E X W} {generatorsOf : X → List WorkflowGen}
    (hengine : engine.ListsGenerators generatorsOf) {spec : WorkflowSpec P} {seed : U64}
    {inst : GeneratedInstance W} (h : spec.generate engine seed = .ok inst) :
    (∀ task ∈ inst.tasks, inst.Solvable task) ∧
      ∀ {σ F : Type} [Zero F] [One F] [NatCast F] [Add F] [Mul F] [Div F],
        CountsDivide F → ∀ (policy : Policy σ F), policy.Eager → ∀ (signal : OutcomeSignal),
          (signal.needsPerformance = true → inst.performance.isSome) → inst.tasks ≠ [] →
          ∀ s : σ, ∃ result s',
            runWorkflowInstance policy inst.toWorkflowInstance signal s = .ok result s' ∧
              result.successRate = 1 := by
  obtain ⟨rng, hdraw⟩ := generate_eq_ok h
  have hfits : inst.Fits spec := drawInstance_returns hengine seed _ _ _ hdraw
  refine ⟨fun task htask ↦ hfits.solvable htask, ?_⟩
  intro σ F _ _ _ _ _ _ hone policy heager signal hsignal hne s
  refine ends_run hone heager (hfits.performanceRows_eq hsignal) (fun hnil ↦ hne ?_) ?_
  · exact List.map_eq_nil_iff.mp hnil
  · intro t task' htask'
    obtain ⟨task, htask, rfl⟩ := Option.map_eq_some_iff.mp
      ((List.getElem?_map ..).symm.trans htask')
    have hmem := List.mem_of_getElem? htask
    refine ⟨fun i hi ↦ ?_, hfits.demands hmem, fun step hstep ↦ hfits.covered hmem hstep,
      hfits.signals hsignal htask⟩
    exact List.mem_range.mp ((hfits.tasks task hmem).tagged.arrival.mem_iff.mp hi)

/-! ## A sample -/

namespace Terms

/-- Take everyone in and let nobody leave. -/
def everyone : Policy Unit ℚ where
  shouldJoin _ _ _ := pure ⟨true, 1⟩
  shouldLeave _ _ _ := pure ⟨false, 0⟩
  beginTask _ := pure ()
  observeOutcome _ _ _ := pure ()

theorem eager_everyone : everyone.Eager where
  joins _ _ _ := Yields.pure rfl
  stays _ _ _ := Yields.pure rfl
  begins _ := Yields.pure trivial
  observes _ _ _ := Yields.pure trivial

theorem countsDivide : CountsDivide ℚ := by
  intro n hn
  rw [Rat.div_def]
  exact Rat.mul_inv_cancel _ (Nat.cast_ne_zero.mpr (Nat.ne_of_gt hn))

/-- A task with two required bits, the second step of which is fanned out. -/
theorem the_sample_is_solvable : ∃ inst, spec.generate engine 7 = .ok inst ∧
    (∀ task ∈ inst.tasks, inst.Solvable task) ∧
    ∃ result s', runWorkflowInstance everyone inst.toWorkflowInstance .both () = .ok result s' ∧
      result.successRate = 1 := by
  have hdrawn : ((spec.generate engine 7).toOption.map fun inst ↦
      (inst.tasks.length, inst.performance.isSome)) = some (1, true) := by decide +kernel
  cases hgenerate : spec.generate engine 7 with
  | error e =>
      rw [hgenerate] at hdrawn
      cases hdrawn
  | ok inst =>
      rw [hgenerate] at hdrawn
      obtain ⟨htasks, hperformance⟩ := Prod.mk.inj (Option.some.inj hdrawn)
      have hsolved := generated_instance_solvable listsGenerators hgenerate
      exact ⟨inst, rfl, hsolved.1, hsolved.2 countsDivide everyone eager_everyone .both
        (fun _ ↦ hperformance) (List.ne_nil_of_length_eq_add_one htasks) ()⟩

end Terms

end Koalisi.Harness
