import Koalisi.Harness.Scoring
import Koalisi.Lib.Settles
import Koalisi.Lib.Sweeps

/-!
# Policies that prune

Two policies without an engine let everybody join and send away whom the others make
redundant: `RefPrune` looks at the steps that are covered, and `RefPruneId` also at how often
those who cover them have performed.

A leave sweep of either is a sweep in the sense of `Koalisi.Lib.Sweeps` (`ends_sweep`).
-/

namespace Koalisi.Harness

open Koalisi.Lib Koalisi.Lib.Fallible
open Koalisi.Topology (U64 Decision DecisionContext)

variable {σ F : Type}

/-! ## The code -/

/-- The mask of a bit, if it fits. -/
def checkedShl (bit : UInt8) : Option UInt32 :=
  if bit.toNat < 32 then some (1 <<< bit.toUInt32) else none

namespace RefPrune

/-- Some member other than the agent `without`, of the step's role, holds its bit. -/
def covered (roles : Nat → Option Role) (coalition : List CapabilityAgent) (without : Option Nat)
    (step : UInt8 × UInt8) : Bool :=
  match checkedShl step.1 with
  | none => false
  | some mask => coalition.any fun m ↦
      some m.id ≠ without && (roles m.id).any (· = step.2) && m.capabilities &&& mask ≠ 0

/-- Every step that is covered stays covered without the agent. -/
def redundant (roles : Nat → Option Role) (steps : List (UInt8 × UInt8))
    (coalition : List CapabilityAgent) (id : Nat) : Bool :=
  steps.all fun step ↦
    !covered roles coalition none step || covered roles coalition (some id) step

/-- The prune; its state is the steps of the last task that was begun. -/
def policy [Zero F] (roles : Nat → Option Role) : Policy (List (UInt8 × UInt8)) F where
  shouldJoin _ _ _ := return { act := true, score := 0 }
  shouldLeave agent coalition _ := do
    let steps ← get
    return { act := redundant roles steps coalition agent.id, score := 0 }
  beginTask task := set task.steps
  observeOutcome _ _ _ := pure ()

end RefPrune

/-- What the identity prune remembers. -/
structure PruneIdState where
  /-- The steps of the last task. -/
  steps : List (UInt8 × UInt8)
  /-- The capabilities of an agent as last shown. -/
  shownCaps : Nat → Option UInt32
  /-- How often an agent performed, and how often it was counted. -/
  records : Nat → Option (UInt64 × UInt64)

namespace PruneIdState

def new : PruneIdState := { steps := [], shownCaps := fun _ ↦ none, records := fun _ ↦ none }

/-- The record of an agent, `(0, 0)` if it has counted nothing. -/
def record (state : PruneIdState) (id : Nat) : UInt64 × UInt64 := (state.records id).getD (0, 0)

end PruneIdState

/-- A product of 128-bit numbers. -/
def checkedMul (a b : Nat) : Option Nat := if a * b < 2 ^ 128 then some (a * b) else none

/-- A sum of 64-bit numbers. -/
def checkedAdd (a b : UInt64) : Option UInt64 :=
  if a.toNat + b.toNat < 2 ^ 64 then some (a + b) else none

namespace RefPruneId

/-- The member has the step's role and holds its bit. -/
def covers (roles : Nat → Option Role) (id : Nat) (caps : UInt32) (step : UInt8 × UInt8) : Bool :=
  (checkedShl step.1).any fun mask ↦ caps &&& mask ≠ 0 && (roles id).any (· = step.2)

/-- Compare two records by cross-multiplication. -/
def atLeast (a b : UInt64 × UInt64) : Option Bool := do
  let left ← checkedMul (a.1.toNat + 1) (b.2.toNat + 2)
  let right ← checkedMul (b.1.toNat + 1) (a.2.toNat + 2)
  return left ≥ right

def showAgent (state : PruneIdState) (agent : CapabilityAgent) : PruneIdState :=
  { state with
    shownCaps := fun id ↦ if id = agent.id then some agent.capabilities else state.shownCaps id }

/-- For every step that the agent covers, another member covers it with a record at least as
good. -/
def outranked (roles : Nat → Option Role) (state : PruneIdState)
    (coalition : List CapabilityAgent) (agent : CapabilityAgent) : Option Bool :=
  (state.steps.filter (covers roles agent.id agent.capabilities)).allM fun step ↦
    coalition.anyM fun m ↦
      if m.id ≠ agent.id && covers roles m.id m.capabilities step then
        atLeast (state.record m.id) (state.record agent.id)
      else some false

/-- Count one outcome of a member, if the steps of its role ask for something that it has. -/
def countOutcome (roles : Nat → Option Role) (state : PruneIdState) (member : MemberOutcome) :
    Option PruneIdState :=
  let id := member.agentId
  match roles id, state.shownCaps id with
  | some role, some caps =>
      let required := ((state.steps.filter (·.2 = role)).filterMap (checkedShl ·.1)).foldl
        (· ||| ·) 0
      if required &&& caps = 0 then some state
      else do
        let (p, n) := state.record id
        let n ← checkedAdd n 1
        let p ← checkedAdd p (if member.performed then 1 else 0)
        return { state with
          records := fun other ↦ if other = id then some (p, n) else state.records other }
  | _, _ => some state

/-- The identity prune. -/
def policy [Zero F] (roles : Nat → Option Role) : Policy PruneIdState F where
  shouldJoin agent coalition _ := do
    modify fun state ↦ coalition.foldl showAgent (showAgent state agent)
    return { act := true, score := 0 }
  shouldLeave agent coalition _ := do
    modify fun state ↦ coalition.foldl showAgent (showAgent state agent)
    let state ← get
    let covered (without : Option Nat) (step : UInt8 × UInt8) : Bool := coalition.any fun m ↦
      some m.id ≠ without && covers roles m.id m.capabilities step
    let redundant := state.steps.all fun step ↦
      !covered none step || covered (some agent.id) step
    let outranked ← StateT.lift (outranked roles state coalition agent)
    return { act := redundant && outranked, score := 0 }
  beginTask task := modify fun state ↦ { state with steps := task.steps }
  observeOutcome _ _ members := do
    let state ← get
    let state ← StateT.lift (members.foldlM (countOutcome roles) state)
    set state

end RefPruneId

/-! ## Leave sweeps -/

section Leaves

variable {policy : Policy σ F} {agents : List CapabilityAgent} {ctx : DecisionContext}
  {I : σ → Prop} {members : List Nat} {coalition : List CapabilityAgent} {s s' : σ}

/-- The agents in these places of the pool. -/
def Viewed (agents : List CapabilityAgent) (members : List Nat)
    (coalition : List CapabilityAgent) : Prop :=
  List.Forall₂ (fun i agent ↦ agents[i]? = some agent) members coalition

theorem viewed_of_views (h : views agents members s = .ok coalition s') :
    Viewed agents members coalition :=
  forall₂_of_mapM_eq_some (unwrap_eq_ok.mp h).1

theorem Viewed.lt (h : Viewed agents members coalition) : ∀ i ∈ members, i < agents.length :=
  forall_of_forall₂ (h.flip.imp fun _ _ hagent ↦ (List.getElem?_eq_some_iff.mp hagent).1)

/-- What is looked for among the agents is looked for among their places. -/
theorem Viewed.any_eq (h : Viewed agents members coalition) {p : CapabilityAgent → Bool}
    {q : Nat → Bool} (hpq : ∀ i ∈ members, ∀ agent, agents[i]? = some agent → p agent = q i) :
    coalition.any p = members.any q := by
  induction h with
  | nil => rfl
  | @cons i agent members coalition hagent _ ih =>
      rw [List.any_cons, List.any_cons, hpq i List.mem_cons_self agent hagent,
        ih fun j hj ↦ hpq j (List.mem_cons_of_mem i hj)]

/-- Whoever is asked about leaving one of these coalitions, in such a state, answers as the
function says, and leaves such a state. -/
def LeavesBy (policy : Policy σ F) (agents : List CapabilityAgent) (ctx : DecisionContext)
    (I : σ → Prop) (members : List Nat) (leave : List Nat → Nat → Bool) : Prop :=
  ∀ ms, ms.Sublist members → ∀ i ∈ ms, ∀ agent coalition, agents[i]? = some agent →
    Viewed agents ms coalition → ∀ s, I s →
      Settles (policy.shouldLeave agent coalition ctx) s fun decision t ↦
        decision.act = leave ms i ∧ I t

variable {leave : List Nat → Nat → Bool}

theorem LeavesBy.sublist {ms : List Nat} (h : LeavesBy policy agents ctx I members leave)
    (hms : ms.Sublist members) : LeavesBy policy agents ctx I ms leave :=
  fun ms' hms' ↦ h ms' (hms'.trans hms)

/-- One arrival is asked, if it is a member. -/
theorem ends_askLeave_sweep (h : LeavesBy policy agents ctx I members leave)
    (hpool : ∀ i ∈ members, i < agents.length) (i churn : Nat) (hs : I s) :
    Ends (askLeave policy agents ctx (members, churn) i) s fun acc t ↦
      acc.1 = Sweeps.ask leave members i ∧ acc.2 + acc.1.length = churn + members.length ∧ I t := by
  by_cases hi : i ∈ members
  · obtain ⟨pos, hpos, herase⟩ := exists_findIdx hi
    obtain ⟨coalition, hviews⟩ := exists_views hpool
    have hagent := List.getElem?_eq_getElem (hpool i hi)
    simp only [askLeave, hpos]
    refine Ends.bind_ok (unwrap_eq_ok.mpr ⟨hviews, rfl⟩) ?_
    refine Ends.bind_ok (unwrap_eq_ok.mpr ⟨hagent, rfl⟩) ?_
    obtain ⟨decision, t, hrun, hact, ht⟩ := h members (List.Sublist.refl _) i hi _ coalition hagent
      (forall₂_of_mapM_eq_some hviews) s hs
    refine Ends.bind_ok (call_eq_ok.mpr hrun) (ends_pure ?_)
    rw [hact, herase]
    unfold Sweeps.ask
    cases hleave : leave members i with
    | true =>
        refine ⟨(if_pos ⟨hi, rfl⟩).symm, ?_, ht⟩
        have hlen := List.length_erase_of_mem hi
        have hpos := List.length_pos_of_mem hi
        rw [if_pos rfl]
        dsimp only
        omega
    | false => exact ⟨(if_neg fun hand ↦ Bool.false_ne_true hand.2).symm, rfl, ht⟩
  · have hnone : askLeave policy agents ctx (members, churn) i = pure (members, churn) := by
      simp only [askLeave, findIdx_eq_none hi]
    rw [hnone]
    exact ends_pure ⟨(if_neg fun hand ↦ hi hand.1).symm, rfl, hs⟩

/-- The arrivals are asked in turn, which is a sweep. -/
theorem ends_sweep (h : LeavesBy policy agents ctx I members leave)
    (hpool : ∀ i ∈ members, i < agents.length) (arrival : List Nat) (churn : Nat) (hs : I s) :
    Ends (leaves policy agents ctx arrival members churn) s fun acc t ↦
      acc.1 = Sweeps.sweep leave arrival members ∧
        acc.2 + acc.1.length = churn + members.length ∧ I t := by
  induction arrival generalizing members churn s with
  | nil => exact ends_pure ⟨rfl, rfl, hs⟩
  | cons i arrival ih =>
      rw [leaves, List.foldlM_cons]
      refine (ends_askLeave_sweep h hpool i churn hs).bind fun acc t hacc ↦ ?_
      obtain ⟨ms, churn'⟩ := acc
      obtain ⟨rfl, hchurn, ht⟩ := hacc
      have hsub := Sweeps.ask_sublist leave members i
      refine (ih (h.sublist hsub) (fun j hj ↦ hpool j (hsub.subset hj)) churn' ht).imp
        fun acc u hacc ↦ ⟨hacc.1, hacc.2.1.trans hchurn, hacc.2.2⟩

/-- If everybody may join, all that arrive are members. -/
theorem joins_eq (hjoin : ∀ agent coalition s decision t,
      (policy.shouldJoin agent coalition ctx).run s = some (decision, t) → I s →
        decision.act = true ∧ I t)
    {arrival : List Nat} (hs : I s) (h : joins policy agents ctx arrival s = .ok members s') :
    members = arrival ∧ I s' := by
  cases arrival with
  | nil =>
      obtain ⟨rfl, rfl⟩ := pure_eq_ok.mp h
      exact ⟨rfl, hs⟩
  | cons first arrivals =>
      suffices hfrom : ∀ front s, I s →
          arrivals.foldlM (askJoin policy agents ctx) front s = .ok members s' →
            members = front ++ arrivals ∧ I s' from hfrom [first] s hs h
      clear h hs
      induction arrivals with
      | nil =>
          intro front s hs h
          obtain ⟨rfl, rfl⟩ := pure_eq_ok.mp h
          exact ⟨(List.append_nil _).symm, hs⟩
      | cons candidate arrivals ih =>
          intro front s hs h
          rw [List.foldlM_cons] at h
          obtain ⟨mid, u, hask, h⟩ := bind_eq_ok.mp h
          obtain ⟨coalition, _, hviews, hask⟩ := bind_eq_ok.mp hask
          obtain ⟨-, rfl⟩ := unwrap_eq_ok.mp hviews
          obtain ⟨agent, _, hagent, hask⟩ := bind_eq_ok.mp hask
          obtain ⟨-, rfl⟩ := unwrap_eq_ok.mp hagent
          obtain ⟨decision, t, hcall, hask⟩ := bind_eq_ok.mp hask
          obtain ⟨rfl, rfl⟩ := pure_eq_ok.mp hask
          obtain ⟨hact, ht⟩ := hjoin agent coalition _ decision t (call_eq_ok.mp hcall) hs
          obtain ⟨rfl, hs'⟩ := ih _ t ht h
          rw [if_pos hact, List.append_assoc]
          exact ⟨rfl, hs'⟩

/-- If all that arrive are members and have been asked, they are in the pool. -/
theorem lt_of_leaves {arrival : List Nat} {churn : Nat} {acc : List Nat × Nat}
    (h : leaves policy agents ctx arrival arrival churn s = .ok acc s') :
    ∀ i ∈ arrival, i < agents.length := by
  cases arrival with
  | nil => exact fun i hi ↦ absurd hi List.not_mem_nil
  | cons first arrivals =>
      rw [leaves, List.foldlM_cons] at h
      obtain ⟨mid, t, hask, -⟩ := bind_eq_ok.mp h
      obtain ⟨pos, hpos, -⟩ := exists_findIdx (List.mem_cons_self : first ∈ first :: arrivals)
      simp only [askLeave, hpos] at hask
      obtain ⟨coalition, u, hviews, -⟩ := bind_eq_ok.mp hask
      exact (viewed_of_views hviews).lt

end Leaves

/-! ## Covers without a redundant member -/

/-- No two agents of the pool have the same id, and the map has the role of each. -/
structure RolesAgree (inst : WorkflowInstance) (roles : Nat → Option Role) : Prop where
  nodup : (inst.agents.map CapabilityAgent.id).Nodup
  role {i : Nat} {agent : CapabilityAgent} :
    inst.agents[i]? = some agent → roles agent.id = inst.roles[i]?

section Coverage

variable {inst : WorkflowInstance} {roles : Nat → Option Role} {members : List Nat}
  {coalition : List CapabilityAgent} {step : Step} {i j : Nat} {agent other : CapabilityAgent}

theorem RolesAgree.id_eq_iff (h : RolesAgree inst roles) (hi : inst.agents[i]? = some agent)
    (hj : inst.agents[j]? = some other) : other.id = agent.id ↔ j = i := by
  constructor
  · intro hid
    obtain ⟨hlt, hget⟩ := List.getElem?_eq_some_iff.mp hj
    refine (List.getElem?_inj (by rwa [List.length_map]) h.nodup).mp ?_
    rw [List.getElem?_map, List.getElem?_map, hi, hj, Option.map_some, Option.map_some, hid]
  · rintro rfl
    cases hi.symm.trans hj
    rfl

/-- A step is covered if one of the members covers it. -/
theorem stepCovered_eq_any (inst : WorkflowInstance) (members : List Nat) (step : Step) :
    Recon.stepCovered inst members step =
      members.any fun i ↦ Recon.stepCovered inst [i] step := by
  unfold Recon.stepCovered
  cases step.capabilityMask with
  | none => exact (List.any_eq_false.mpr fun i _ ↦ Bool.false_ne_true).symm
  | some mask => simp only [List.any_cons, List.any_nil, Bool.or_false]

/-- Both prunes look for the members that cover the step. -/
theorem RefPrune.covered_eq_any (roles : Nat → Option Role) (coalition : List CapabilityAgent)
    (without : Option Nat) (step : UInt8 × UInt8) :
    RefPrune.covered roles coalition without step = coalition.any fun m ↦
      some m.id ≠ without && RefPruneId.covers roles m.id m.capabilities step := by
  unfold RefPrune.covered RefPruneId.covers
  cases checkedShl step.1 with
  | none =>
      refine (List.any_eq_false.mpr fun m _ ↦ ?_).symm
      rw [Option.any_none, Bool.and_false]
      exact Bool.false_ne_true
  | some mask =>
      simp only [Option.any_some, Bool.and_assoc]
      refine congrArg coalition.any (funext fun m ↦ ?_)
      rw [Bool.and_comm (decide (m.capabilities &&& mask ≠ 0))]

/-- Who has the step's role and holds its bit covers it. -/
theorem RefPruneId.covers_eq (hroles : RolesAgree inst roles)
    (hagent : inst.agents[i]? = some agent) (step : Step) :
    RefPruneId.covers roles agent.id agent.capabilities (step.bit, step.role) =
      Recon.stepCovered inst [i] step := by
  unfold RefPruneId.covers Recon.stepCovered
  cases hmask : step.capabilityMask with
  | none =>
      rw [show checkedShl step.bit = none from hmask]
      rfl
  | some mask =>
      rw [show checkedShl step.bit = some mask from hmask]
      simp only [List.any_cons, List.any_nil, Bool.or_false, hagent, Option.any_some,
        hroles.role hagent]
      rw [Bool.and_comm]
      cases inst.roles[i]? with
      | none => rfl
      | some role => simp

theorem RefPrune.covered_eq (hroles : RolesAgree inst roles)
    (hview : Viewed inst.agents members coalition) {without : Option Nat} {q : Nat → Bool}
    (hq : ∀ i ∈ members, ∀ agent, inst.agents[i]? = some agent →
      decide (some agent.id ≠ without) = q i) (step : Step) :
    RefPrune.covered roles coalition without (step.bit, step.role) =
      members.any fun i ↦ q i && Recon.stepCovered inst [i] step := by
  rw [covered_eq_any]
  refine hview.any_eq fun i hi agent hagent ↦ ?_
  rw [hq i hi agent hagent, RefPruneId.covers_eq hroles hagent]

/-- Who is redundant is spare. -/
theorem RefPrune.redundant_eq (hroles : RolesAgree inst roles)
    (hview : Viewed inst.agents members coalition) (hagent : inst.agents[i]? = some agent)
    (steps : List Step) :
    RefPrune.redundant roles (steps.map fun s ↦ (s.bit, s.role)) coalition agent.id =
      Sweeps.spare (fun j step ↦ Recon.stepCovered inst [j] step) steps members i := by
  unfold RefPrune.redundant Sweeps.spare
  rw [List.all_map]
  refine List.all_congr rfl fun step ↦ ?_
  have hall : RefPrune.covered roles coalition none (step.bit, step.role) =
      members.any fun j ↦ Recon.stepCovered inst [j] step :=
    covered_eq hroles hview (q := fun _ ↦ true)
      (fun _ _ _ _ ↦ decide_eq_true (Option.some_ne_none _)) step
  have hrest : RefPrune.covered roles coalition (some agent.id) (step.bit, step.role) =
      members.any fun j ↦ decide (j ≠ i) && Recon.stepCovered inst [j] step := by
    refine covered_eq hroles hview (fun j _ other hother ↦ decide_eq_decide.mpr ?_) step
    rw [ne_eq, Option.some.injEq, hroles.id_eq_iff hagent hother]
  rw [Function.comp_apply, hall, hrest]

/-- A coalition that a task ends with: it covers what all that arrived cover, and each member
covers something alone. -/
structure Irredundant (inst : WorkflowInstance) (task : WorkflowTask) (members : List Nat) :
    Prop where
  arrived : members.Sublist task.arrival
  covers : ∀ step ∈ task.demand.distinct,
    Recon.stepCovered inst members step = Recon.stepCovered inst task.arrival step
  sole : ∀ i ∈ members, ∃ step ∈ task.demand.distinct, Recon.stepCovered inst [i] step = true ∧
    ∀ j ∈ members, Recon.stepCovered inst [j] step = true → j = i

variable [Zero F] {signal : OutcomeSignal} {performance : Option (List (List Bool))}

/-- The prune sweeps away whoever is spare. -/
theorem RefPrune.leavesBy (hroles : RolesAgree inst roles) (ctx : DecisionContext)
    (steps : List Step) (members : List Nat) :
    LeavesBy (RefPrune.policy roles : Policy _ F) inst.agents ctx
      (· = steps.map fun s ↦ (s.bit, s.role)) members
      (Sweeps.spare (fun j step ↦ Recon.stepCovered inst [j] step) steps) := by
  rintro ms - i - agent coalition hagent hview s rfl
  exact ⟨_, _, rfl, redundant_eq hroles hview hagent steps, rfl⟩

theorem RefPrune.irredundant_of_endTask (hroles : RolesAgree inst roles) {task : WorkflowTask}
    {t : Nat} {acc acc' : List (List Nat) × Nat} {s s' : List (UInt8 × UInt8)}
    (h : endTask (RefPrune.policy roles : Policy _ F) inst signal performance acc (task, t) s =
      .ok acc' s') :
    ∃ members, acc'.1 = acc.1 ++ [members] ∧ Irredundant inst task members := by
  obtain ⟨_, s₁, hbegin, h⟩ := bind_eq_ok.mp h
  obtain ⟨members, s₂, hjoins, h⟩ := bind_eq_ok.mp h
  obtain ⟨⟨left, churn⟩, s₃, hleaves, h⟩ := bind_eq_ok.mp h
  obtain ⟨bits, s₄, -, h⟩ := bind_eq_ok.mp h
  obtain ⟨outcomes, s₅, -, h⟩ := bind_eq_ok.mp h
  obtain ⟨_, s₆, -, h⟩ := bind_eq_ok.mp h
  obtain ⟨rfl, -⟩ := pure_eq_ok.mp h
  obtain rfl : task.demand.distinct.map (fun s ↦ (s.bit, s.role)) = s₁ := by
    cases call_eq_ok.mp hbegin
    rfl
  obtain ⟨rfl, rfl⟩ := joins_eq
    (I := (· = task.demand.distinct.map fun s ↦ (s.bit, s.role)))
    (fun _ _ s decision t hrun hs ↦ by
      cases hrun
      exact ⟨rfl, hs⟩) rfl hjoins
  obtain ⟨acc', s', hrun, hsweep, -⟩ := ends_sweep
    (leavesBy (F := F) hroles _ task.demand.distinct task.arrival) (lt_of_leaves hleaves)
    task.arrival acc.2 rfl
  cases hrun.symm.trans hleaves
  obtain rfl : left = _ := hsweep
  refine ⟨_, rfl, Sweeps.sweep_sublist _ _ _, fun step hstep ↦ ?_, fun i hi ↦ ?_⟩
  · rw [stepCovered_eq_any, stepCovered_eq_any inst task.arrival]
    exact Sweeps.any_sweep_eq (fun _ _ _ _ hspare ↦ hspare) hstep
  · exact Sweeps.needed_of_mem_sweep Sweeps.spare_judges (fun _ _ ↦ le_rfl) hi

theorem RefPrune.returns_coalitions (hroles : RolesAgree inst roles) :
    Returns (coalitions (RefPrune.policy roles : Policy _ F) inst signal)
      fun ends ↦ List.Forall₂ (Irredundant inst) inst.tasks ends.1 := by
  refine (Returns.any _).bind fun performance _ ↦ ?_
  refine (returns_endTasks (P := fun task members ↦ Irredundant inst task.1 members)
    fun task _ acc s acc' s' h ↦ irredundant_of_endTask hroles h).imp fun ends hends ↦ ?_
  have hmap := List.forall₂_map_left_iff.mpr hends
  rwa [List.zipIdx_map_fst] at hmap

/-- **The prune ends with an irredundant cover.**  Take any instance of whose agents the prune
knows the roles, and any run of the prune over it that ends with a result.  The coalition that a
task ends with is made of arrivals, it covers just the demanded steps that all who arrived cover
together, and each of its members covers a demanded step that nobody else in it covers. -/
theorem ref_prune_ends_irredundant [NatCast F] [Add F] [Mul F] [Div F]
    (inst : WorkflowInstance) {roles : Nat → Option Role} (hroles : RolesAgree inst roles)
    (signal : OutcomeSignal) {s s' : List (UInt8 × UInt8)} {result : WorkflowResult F}
    (h : runWorkflowInstance (RefPrune.policy roles) inst signal s = .ok result s') :
    ∃ ends, coalitions (RefPrune.policy roles : Policy _ F) inst signal s =
        .ok (ends, result.churn) s' ∧
      List.Forall₂ (Irredundant inst) inst.tasks ends := by
  obtain ⟨ends, hends⟩ := coalitions_of_run h
  exact ⟨ends, hends, RefPrune.returns_coalitions hroles s _ s' hends⟩

/-- One of three agents can do what the other two can; they leave, as the first and the last one
to be asked. -/
def Sample.crowd : WorkflowInstance where
  seed := 7
  agents := [⟨0, 1, 80⟩, ⟨1, 3, 70⟩, ⟨2, 2, 60⟩]
  roles := [0, 0, 0]
  tasks := [⟨[0, 0], [0, 1, 2], ⟨[⟨0, 0⟩, ⟨1, 0⟩], by decide⟩⟩]
  performance := none

theorem the_crowd_is_pruned :
    ∃ result : WorkflowResult ℚ,
      runWorkflowInstance (RefPrune.policy fun id ↦ if id < 3 then some 0 else none) Sample.crowd
          .roleCoverage [] = .ok result [(0, 0), (1, 0)] ∧
        result.churn = 2 ∧ ∃ members : List Nat, members.length = 1 ∧
          ∀ task ∈ Sample.crowd.tasks, Irredundant Sample.crowd task members := by
  have hroles : RolesAgree Sample.crowd fun id ↦ if id < 3 then some 0 else none := by
    refine ⟨by decide, fun {i agent} h ↦ ?_⟩
    rcases i with _ | _ | _ | i
    · cases h; rfl
    · cases h; rfl
    · cases h; rfl
    · cases h
  have hrun : ∃ result : WorkflowResult ℚ,
      runWorkflowInstance (RefPrune.policy fun id ↦ if id < 3 then some 0 else none) Sample.crowd
          .roleCoverage [] = .ok result [(0, 0), (1, 0)] ∧ result.churn = 2 := ⟨_, rfl, rfl⟩
  obtain ⟨result, hrun, hchurn⟩ := hrun
  obtain ⟨ends, hends, hpruned⟩ := ref_prune_ends_irredundant Sample.crowd hroles .roleCoverage hrun
  have hmembers : coalitions (RefPrune.policy fun id ↦ if id < 3 then some 0 else none :
      Policy _ ℚ) Sample.crowd .roleCoverage [] = .ok ([[1]], 2) [(0, 0), (1, 0)] := rfl
  rw [hmembers, EStateM.Result.ok.injEq, Prod.mk.injEq] at hends
  obtain ⟨⟨rfl, -⟩, -⟩ := hends
  refine ⟨result, hrun, hchurn, [1], rfl, fun task htask ↦ ?_⟩
  rw [List.mem_singleton.mp htask]
  cases hpruned with
  | cons hfirst _ => exact hfirst

end Coverage

end Koalisi.Harness
