import Koalisi.Decision.Tasks

/-!
# The books of the group arm

Calls come in one after the other: tasks begin, agents join and leave, outcomes are observed.
Every decision is entered in the books once, by the way in which it ended, and every task with
the roles that something was demanded of.  The books balance after any calls.

While no task is in force, because the last one was refused, every decision declines and is
entered as one without demand.
-/

namespace Koalisi.Decision

open Koalisi.Lib
open Koalisi.Harness (CapabilityAgent MemberOutcome Role TaskStart)
open Koalisi.Topology (Decision DecisionContext)

variable {F : Type} [FloatingPoint F]

/-! ## How a decision ends -/

/-- The ways in which a decision can end. -/
inductive Exit (F : Type) where
  | noDemand
  | missingRole
  | upstream
  | read (sample : AgreementSample F) (routed : Bool)
  | drawn

namespace GroupAifCounters

variable (c : GroupAifCounters F)

/-- One more decision. -/
def opened : GroupAifCounters F := { c with decisions := c.decisions + 1 }

/-- The queries of a leave. -/
def tallied (tally : GroupAifPolicy.LeaveTally) : GroupAifCounters F :=
  { c with
    leaveQueries := c.leaveQueries + tally.queries
    leaveQueriesIdentical := c.leaveQueriesIdentical + tally.identical }

/-- The end of a decision. -/
def closed : Exit F → GroupAifCounters F
  | .noDemand => { c with declinesNoDemand := c.declinesNoDemand + 1 }
  | .missingRole => { c with declinesMissingRole := c.declinesMissingRole + 1 }
  | .upstream => { c with declinesUpstream := c.declinesUpstream + 1 }
  | .read sample routed =>
      { c with
        reads := c.reads + 1
        routedReads := c.routedReads + if routed then 1 else 0
        agreement := c.agreement ++ [sample] }
  | .drawn => { c with reads := c.reads + 1 }

variable {c}

omit [FloatingPoint F] in
@[simp] theorem rosterSizes_closed {exit : Exit F} :
    (c.closed exit).rosterSizes = c.rosterSizes := by cases exit <;> rfl

omit [FloatingPoint F] in
@[simp] theorem tasksObserved_closed {exit : Exit F} :
    (c.closed exit).tasksObserved = c.tasksObserved := by cases exit <;> rfl

end GroupAifCounters

/-- The state with other counters. -/
def GroupState.withCounters {aif : GroupAif F} (s : GroupState aif) (c : GroupAifCounters F) :
    GroupState aif := { s with counters := c }

namespace GroupAifPolicy

variable {aif : GroupAif F} {policy : GroupAifPolicy aif} {s t : GroupState aif}

/-- A decision that is open has been closed, and its queries tallied. -/
def Closes (policy : GroupAifPolicy aif) (tally : LeaveTally) (s t : GroupState aif) : Prop :=
  ∃ exit, t = s.withCounters ((s.counters.closed exit).tallied tally) ∧
    (exit = .drawn → policy.config.read = .seededSampling)

omit [FloatingPoint F] in
theorem count_ensures {f : GroupAifCounters F → GroupAifCounters F} :
    Ensures (count f) s fun _ t ↦ t = s.withCounters (f s.counters) := .modifyGet rfl

omit [FloatingPoint F] in
theorem recordLeaveMasks_ensures {tally : LeaveTally} (h : tally.identical ≤ tally.queries) :
    Ensures (recordLeaveMasks tally) s fun _ t ↦ t = s.withCounters (s.counters.tallied tally) := by
  obtain ⟨queries, identical⟩ := tally
  rw [recordLeaveMasks]
  by_cases hzero : queries = 0
  · subst hzero
    obtain rfl : identical = 0 := Nat.le_zero.mp h
    exact .pure rfl
  · rw [if_neg hzero]
    exact count_ensures

theorem declineUpstream_ensures (policy : GroupAifPolicy aif) {tally : LeaveTally}
    (h : tally.identical ≤ tally.queries) :
    Ensures (declineUpstream tally) s fun _ t ↦ Closes policy tally s t := by
  refine count_ensures.bind fun _ t ht ↦ ?_
  subst ht
  refine (recordLeaveMasks_ensures h).bind fun _ u hu ↦ ?_
  exact .pure ⟨.upstream, hu, fun h ↦ by cases h⟩

theorem deterministicDecision_ensures {slot : ActiveSlot aif.Topology}
    {internals : List (RoleMember aif)} {read : ReadContext aif}
    (h : read.leaveIdentical ≤ read.leaveQueries) :
    Ensures (deterministicDecision slot internals read) s fun _ t ↦
      Closes policy ⟨read.leaveQueries, read.leaveIdentical⟩ s t := by
  have hdecline : Ensures (declineUpstream ⟨read.leaveQueries, read.leaveIdentical⟩) s fun _ t ↦
      Closes policy ⟨read.leaveQueries, read.leaveIdentical⟩ s t := declineUpstream_ensures policy h
  rw [deterministicDecision]
  generalize groupDistribution aif slot internals = group
  obtain ⟨result, members⟩ := group
  cases result with
  | error e => exact hdecline
  | ok dist =>
      dsimp only
      cases dist[actionAct]? with
      | none => exact hdecline
      | some pAct =>
          dsimp only
          by_cases hfinite : FloatingPoint.isFinite pAct
          · rw [if_neg (not_not_intro hfinite)]
            cases agreementSample aif members read pAct (Decidable.decide ((0.5 : F) < pAct)) with
            | error e => exact hdecline
            | ok sample =>
                refine count_ensures.bind fun _ t ht ↦ .pure ?_
                exact ⟨.read sample read.routed, ht, fun h ↦ by cases h⟩
          · rw [if_pos hfinite]
            exact hdecline

theorem sampledDecision_ensures {seed : UInt64} {internals : List (RoleMember aif)}
    (h : policy.config.read = .seededSampling) :
    Ensures (policy.sampledDecision seed internals) s fun _ t ↦
      ∃ exit, t = s.withCounters (s.counters.closed exit) ∧
        (exit = .drawn → policy.config.read = .seededSampling) := by
  rw [sampledDecision]
  cases aif.sample policy.config.vote.upstream seed (pollMembers aif internals).1 with
  | ok action =>
      refine count_ensures.bind fun _ t ht ↦ .pure ?_
      exact ⟨.drawn, ht, fun _ ↦ h⟩
  | error e =>
      refine count_ensures.bind fun _ t ht ↦ .pure ?_
      exact ⟨.upstream, ht, fun h ↦ by cases h⟩

theorem readGroup_ensures {task : TaskState} {agentRole : Role} {leave : Bool} {seed : UInt64}
    {internals : List (RoleMember aif)} {tally : LeaveTally}
    (h : tally.identical ≤ tally.queries) :
    Ensures (policy.readGroup task agentRole leave seed internals tally) s fun _ t ↦
      Closes policy tally s t := by
  rw [readGroup]
  cases policy.config.routing with
  | off =>
      dsimp only
      split
      · next hread =>
          refine (sampledDecision_ensures hread).bind fun d t ht ↦ ?_
          obtain ⟨exit, rfl, hexit⟩ := ht
          refine (recordLeaveMasks_ensures h).bind fun _ u hu ↦ ?_
          exact .pure ⟨exit, hu, hexit⟩
      · exact deterministicDecision_ensures h
  | candidateStar lambda =>
      dsimp only
      cases candidateStar aif internals.length (task.roster.findIdx? (· = agentRole)) lambda with
      | error e => exact declineUpstream_ensures policy h
      | ok built => exact deterministicDecision_ensures h

theorem LeaveTally.add_le {tally : LeaveTally} {masks : MaskPair}
    (h : tally.identical ≤ tally.queries) :
    (tally.add masks).identical ≤ (tally.add masks).queries := by
  refine Nat.add_le_add h ?_
  split
  · exact le_rfl
  · exact Nat.zero_le _

/-- What was tallied, whether or not the internal agents could be built. -/
def tallyOf : Except LeaveTally (List (RoleMember aif) × LeaveTally) → LeaveTally
  | .error tally => tally
  | .ok (_, tally) => tally

theorem buildInternals_tally {models : Models aif} {task : TaskState} {candidate : Participant}
    {members : List Participant} {leave : Bool} {seed : UInt64} {roles : List Role}
    {tally : LeaveTally} {built : Except LeaveTally (List (RoleMember aif) × LeaveTally)}
    (hbuilt : policy.buildInternals models task candidate members leave seed roles tally =
      some built) (h : tally.identical ≤ tally.queries) :
    (tallyOf built).identical ≤ (tallyOf built).queries := by
  induction roles generalizing tally built with
  | nil =>
      cases hbuilt
      exact h
  | cons role roles ih =>
      obtain ⟨required, -, hbuilt⟩ := Option.bind_eq_some_iff.mp hbuilt
      have hnext : (if leave then
          tally.add (coverageMasks policy.config.masks role candidate members leave)
          else tally).identical ≤ (if leave then
          tally.add (coverageMasks policy.config.masks role candidate members leave)
          else tally).queries := by
        split
        · exact LeaveTally.add_le h
        · exact h
      cases hview : models.view role with
      | none =>
          rw [hview] at hbuilt
          cases hbuilt
          exact hnext
      | some model =>
          rw [hview] at hbuilt
          obtain ⟨query, -, hbuilt⟩ := Option.bind_eq_some_iff.mp hbuilt
          cases query with
          | error e =>
              cases hbuilt
              exact hnext
          | ok query =>
              obtain ⟨rest, hrest, hbuilt⟩ := Option.bind_eq_some_iff.mp hbuilt
              have hle := ih hrest hnext
              cases rest with
              | error tally =>
                  cases hbuilt
                  exact hle
              | ok rest =>
                  cases hbuilt
                  exact hle

/-- A decision was opened and closed. -/
structure Decides (policy : GroupAifPolicy aif) (s t : GroupState aif) (exit : Exit F)
    (tally : LeaveTally) : Prop where
  state : ∃ counter, t = { s with
    counters := (s.counters.opened.closed exit).tallied tally
    decisionCounter := counter }
  drawn : exit = .drawn → policy.config.read = .seededSampling
  identical_le : tally.identical ≤ tally.queries

theorem decide_ensures {agent : CapabilityAgent} {coalition : List CapabilityAgent}
    {leave : Bool} :
    Ensures (policy.decide agent coalition leave) s fun _ t ↦
      ∃ exit tally, Decides policy s t exit tally := by
  refine count_ensures.bind fun _ t ht ↦ .get_bind ?_
  obtain rfl : t = s.withCounters s.counters.opened := ht
  cases htask : s.task with
  | none =>
      rw [show (s.withCounters s.counters.opened).task = none from htask]
      refine count_ensures.bind fun _ t ht ↦ .pure ?_
      exact ⟨.noDemand, ⟨0, 0⟩, ⟨s.decisionCounter, ht⟩, fun h ↦ (by cases h), le_rfl⟩
  | some task =>
      rw [show (s.withCounters s.counters.opened).task = some task from htask]
      dsimp only
      cases policy.resolveParticipants agent coalition with
      | none =>
          refine count_ensures.bind fun _ t ht ↦ .pure ?_
          exact ⟨.missingRole, ⟨0, 0⟩, ⟨s.decisionCounter, ht⟩, fun h ↦ (by cases h), le_rfl⟩
      | some resolved =>
          refine .modifyGet_bind (.get_bind (.lift_bind fun built hbuilt ↦ ?_))
          have hle := buildInternals_tally hbuilt le_rfl
          cases built with
          | error tally =>
              refine (declineUpstream_ensures policy hle).imp fun d t ht ↦ ?_
              obtain ⟨exit, rfl, hexit⟩ := ht
              exact ⟨exit, tally, ⟨_, rfl⟩, hexit, hle⟩
          | ok built =>
              refine (readGroup_ensures hle).imp fun d t ht ↦ ?_
              obtain ⟨exit, rfl, hexit⟩ := ht
              exact ⟨exit, built.2, ⟨_, rfl⟩, hexit, hle⟩

/-- Without a task, a decision declines and is entered as one without demand. -/
theorem decide_idle (h : s.task = none) {agent : CapabilityAgent}
    {coalition : List CapabilityAgent} {leave : Bool} :
    Ensures (policy.decide agent coalition leave) s fun d t ↦
      d = declined ∧ t = s.withCounters (s.counters.opened.closed .noDemand) := by
  refine count_ensures.bind fun _ t ht ↦ .get_bind ?_
  obtain rfl : t = s.withCounters s.counters.opened := ht
  rw [show (s.withCounters s.counters.opened).task = none from h]
  exact count_ensures.bind fun _ t ht ↦ .pure ⟨rfl, ht⟩

/-! ## Calls -/

/-- What is called on an arm: the methods that it has itself, and those of a policy. -/
inductive GroupCall where
  | beginTask (demand : CountedDemand)
  | startTask (start : TaskStart)
  | shouldJoin (agent : CapabilityAgent) (coalition : List CapabilityAgent) (ctx : DecisionContext)
  | shouldLeave (agent : CapabilityAgent) (coalition : List CapabilityAgent) (ctx : DecisionContext)
  | observeOutcome (perBitSuccess : List Bool)
  | reportOutcome (required : UInt32) (perBitSuccess : List Bool) (members : List MemberOutcome)

namespace GroupCall

/-- The demand of a task that is begun. -/
def demand? : GroupCall → Option CountedDemand
  | beginTask demand => some demand
  | startTask start => some (.ofStart start)
  | _ => none

/-- The outcome that is observed. -/
def outcome? : GroupCall → Option (List Bool)
  | observeOutcome perBitSuccess => some perBitSuccess
  | reportOutcome _ perBitSuccess _ => some perBitSuccess
  | _ => none

def perform (policy : GroupAifPolicy aif) : GroupCall → StateT (GroupState aif) Option Unit
  | beginTask demand => do
      let _ ← policy.beginTask demand
  | startTask start => policy.consulted.beginTask start
  | shouldJoin agent coalition ctx => do
      let _ ← policy.consulted.shouldJoin agent coalition ctx
  | shouldLeave agent coalition ctx => do
      let _ ← policy.consulted.shouldLeave agent coalition ctx
  | observeOutcome perBitSuccess => do
      let _ ← policy.observeOutcome perBitSuccess
  | reportOutcome required perBitSuccess members =>
      policy.consulted.observeOutcome required perBitSuccess members

end GroupCall

/-- What a call can do. -/
inductive Performs (policy : GroupAifPolicy aif) (s : GroupState aif) (call : GroupCall) :
    GroupState aif → Prop where
  | refuse {demand : CountedDemand} {e : GroupAifError aif.AifError F} {rejections : Nat}
      (hdemand : call.demand? = some demand) (hplan : policy.plan demand = .error e) :
      Performs policy s call { s with
        task := none
        counters := { s.counters with beginTaskRejections := rejections } }
  | begin {demand : CountedDemand} {task : TaskState}
      (hdemand : call.demand? = some demand) (hplan : policy.plan demand = .ok task) :
      Performs policy s call (begun policy task s)
  | decide {exit : Exit F} {tally : LeaveTally} {t : GroupState aif}
      (hdemand : call.demand? = none) (houtcome : call.outcome? = none)
      (h : Decides policy s t exit tally) : Performs policy s call t
  | skip {perBitSuccess : List Bool} {unapplied : Nat}
      (hdemand : call.demand? = none) (houtcome : call.outcome? = some perBitSuccess)
      (h : policy.observedTask s perBitSuccess = none) :
      Performs policy s call (s.withCounters
        { s.counters with outcomeUpdatesUnapplied := unapplied })
  | observe {perBitSuccess : List Bool} {task : TaskState} {applied unapplied : Nat}
      {t u : GroupState aif}
      (hdemand : call.demand? = none) (houtcome : call.outcome? = some perBitSuccess)
      (h : policy.observedTask s perBitSuccess = some task)
      (hrun : (policy.observeOutcome perBitSuccess).run s = some (applied, u))
      (happlied : applied ≤ s.models.topology.asked task.roster.length)
      (hlearned : Learned s t applied) :
      Performs policy s call (t.withCounters
        { t.counters with
          tasksObserved := t.counters.tasksObserved + 1
          outcomeUpdatesUnapplied := unapplied })

theorem beginTask_performs {call : GroupCall} {demand : CountedDemand}
    (hdemand : call.demand? = some demand) :
    Ensures (policy.beginTask demand) s fun _ t ↦ Performs policy s call t := by
  refine beginTask_ensures.imp fun answer t h ↦ ?_
  cases hplan : policy.plan demand with
  | error e =>
      rw [hplan] at h
      obtain ⟨-, rfl⟩ := h
      exact .refuse hdemand hplan
  | ok task =>
      rw [hplan] at h
      obtain ⟨-, rfl⟩ := h
      exact .begin hdemand hplan

theorem startTask_performs {call : GroupCall} {start : TaskStart}
    (hdemand : call.demand? = some (.ofStart start)) :
    Ensures (policy.startTask start) s fun _ t ↦ Performs policy s call t := by
  refine beginTask_ensures.bind fun answer t h ↦ ?_
  cases hplan : policy.plan (.ofStart start) with
  | error e =>
      rw [hplan] at h
      obtain ⟨rfl, rfl⟩ := h
      exact .modifyGet (.refuse hdemand hplan)
  | ok task =>
      rw [hplan] at h
      obtain ⟨rfl, rfl⟩ := h
      exact .pure (.begin hdemand hplan)

theorem observeOutcome_performs {call : GroupCall} {perBitSuccess : List Bool}
    (hdemand : call.demand? = none) (houtcome : call.outcome? = some perBitSuccess) :
    Ensures (policy.observeOutcome perBitSuccess) s fun _ t ↦
      ∀ unapplied, Performs policy s call
        (t.withCounters { t.counters with outcomeUpdatesUnapplied := unapplied }) := by
  refine observeOutcome_ensures.with_run.imp fun applied t h unapplied ↦ ?_
  obtain ⟨h, hrun⟩ := h
  cases htask : policy.observedTask s perBitSuccess with
  | none =>
      rw [htask] at h
      obtain ⟨-, rfl⟩ := h
      exact .skip hdemand houtcome htask
  | some task =>
      rw [htask] at h
      obtain ⟨happlied, u, hlearned, rfl⟩ := h
      exact .observe hdemand houtcome htask hrun happlied hlearned

theorem reportOutcome_performs {call : GroupCall} {perBitSuccess : List Bool}
    (hdemand : call.demand? = none) (houtcome : call.outcome? = some perBitSuccess) :
    Ensures (policy.reportOutcome perBitSuccess) s fun _ t ↦ Performs policy s call t := by
  refine (observeOutcome_performs hdemand houtcome).bind fun applied t h ↦ ?_
  split
  · exact .modifyGet (h _)
  · exact .pure (h t.counters.outcomeUpdatesUnapplied)

theorem decide_performs {call : GroupCall} {agent : CapabilityAgent}
    {coalition : List CapabilityAgent} {leave : Bool} (hdemand : call.demand? = none)
    (houtcome : call.outcome? = none) :
    Ensures (policy.decide agent coalition leave) s fun _ t ↦ Performs policy s call t := by
  refine decide_ensures.imp fun _ t h ↦ ?_
  obtain ⟨exit, tally, h⟩ := h
  exact .decide hdemand houtcome h

theorem perform_ensures (call : GroupCall) :
    Ensures (call.perform policy) s fun _ t ↦ Performs policy s call t := by
  cases call with
  | beginTask demand => exact (beginTask_performs rfl).bind fun _ _ h ↦ .pure h
  | startTask start => exact startTask_performs rfl
  | shouldJoin agent coalition ctx => exact (decide_performs rfl rfl).bind fun _ _ h ↦ .pure h
  | shouldLeave agent coalition ctx => exact (decide_performs rfl rfl).bind fun _ _ h ↦ .pure h
  | observeOutcome perBitSuccess =>
      exact (observeOutcome_performs rfl rfl).bind fun _ t h ↦
        .pure (h t.counters.outcomeUpdatesUnapplied)
  | reportOutcome required perBitSuccess members => exact reportOutcome_performs rfl rfl

/-- Call after call. -/
def run (policy : GroupAifPolicy aif) (s : GroupState aif) (calls : List GroupCall) :
    Option (GroupState aif) :=
  calls.foldlM (fun s call ↦ ((call.perform policy).run s).map (·.2)) s

/-- What each of the calls preserves, they preserve one after the other. -/
theorem run_preserves {I : GroupState aif → Prop} {calls : List GroupCall}
    (hstep : ∀ s, ∀ call ∈ calls, ∀ t, Performs policy s call t → I s → I t)
    (hrun : run policy s calls = some t) (h : I s) : I t := by
  induction calls generalizing s with
  | nil =>
      cases hrun
      exact h
  | cons call calls ih =>
      obtain ⟨u, hu, hrest⟩ := Option.bind_eq_some_iff.mp hrun
      obtain ⟨⟨_, u⟩, hperform, rfl⟩ := Option.map_eq_some_iff.mp hu
      refine ih (fun s call hcall ↦ hstep s call (List.mem_cons_of_mem _ hcall)) hrest ?_
      exact hstep s call List.mem_cons_self u (perform_ensures call _ _ hperform) h

/-! ## What the counters add up to -/

/-- Every decision is counted by the way in which it ended, and every task with its roles. -/
structure Balanced (policy : GroupAifPolicy aif) (c : GroupAifCounters F) : Prop where
  decisions : c.decisions =
    c.reads + c.declinesUpstream + c.declinesMissingRole + c.declinesNoDemand
  agreement : policy.config.read = .deterministic → c.agreement.length = c.reads
  routed : policy.config.read = .deterministic → c.routedReads ≤ c.reads
  identical : c.leaveQueriesIdentical ≤ c.leaveQueries
  slots : c.emptyRoleSlots + c.rosterSizes.sum = policy.config.nRoles * c.rosterSizes.length

namespace Balanced

variable {c : GroupAifCounters F}

theorem zero : Balanced policy .zero := ⟨rfl, fun _ ↦ rfl, fun _ ↦ le_rfl, le_rfl, rfl⟩

theorem tallied (h : Balanced policy c) {tally : LeaveTally}
    (hle : tally.identical ≤ tally.queries) : Balanced policy (c.tallied tally) where
  decisions := h.decisions
  agreement := h.agreement
  routed := h.routed
  identical := Nat.add_le_add h.identical hle
  slots := h.slots

/-- One decision more. -/
theorem closed (h : Balanced policy c) {exit : Exit F}
    (hdrawn : exit = .drawn → policy.config.read = .seededSampling) :
    Balanced policy (c.opened.closed exit) := by
  have hdecisions : c.decisions + 1 =
      c.reads + c.declinesUpstream + c.declinesMissingRole + c.declinesNoDemand + 1 :=
    congrArg (· + 1) h.decisions
  cases exit with
  | noDemand => exact ⟨hdecisions, h.agreement, h.routed, h.identical, h.slots⟩
  | missingRole =>
      refine ⟨hdecisions.trans ?_, h.agreement, h.routed, h.identical, h.slots⟩
      exact Nat.add_right_comm _ _ 1
  | upstream =>
      refine ⟨hdecisions.trans ?_, h.agreement, h.routed, h.identical, h.slots⟩
      change _ = c.reads + (c.declinesUpstream + 1) + c.declinesMissingRole + c.declinesNoDemand
      omega
  | read sample routed =>
      refine ⟨hdecisions.trans ?_, fun hread ↦ ?_, fun hread ↦ ?_, h.identical, h.slots⟩
      · change _ = c.reads + 1 + c.declinesUpstream + c.declinesMissingRole + c.declinesNoDemand
        omega
      · exact List.length_append.trans (congrArg (· + 1) (h.agreement hread))
      · refine Nat.add_le_add (h.routed hread) ?_
        split
        · exact le_rfl
        · exact Nat.zero_le _
  | drawn =>
      have hread : policy.config.read ≠ .deterministic := by
        rw [hdrawn rfl]
        decide
      refine ⟨hdecisions.trans ?_, fun h ↦ absurd h hread, fun h ↦ absurd h hread, h.identical,
        h.slots⟩
      change _ = c.reads + 1 + c.declinesUpstream + c.declinesMissingRole + c.declinesNoDemand
      omega

/-- One task more. -/
theorem begun (h : Balanced policy s.counters) {task : TaskState}
    (hsize : task.roster.length ≤ policy.config.nRoles) :
    Balanced policy (begun policy task s).counters := by
  refine ⟨h.decisions, h.agreement, h.routed, h.identical, ?_⟩
  change s.counters.emptyRoleSlots + (policy.config.nRoles - task.roster.length) +
    (s.counters.rosterSizes ++ [task.roster.length]).sum =
      policy.config.nRoles * (s.counters.rosterSizes ++ [task.roster.length]).length
  have hslots := h.slots
  rw [List.sum_append, List.sum_singleton, List.length_append, List.length_singleton, Nat.mul_succ]
  omega

end Balanced

/-- The books balance, and the world models are expected to have learned what the tasks so far
have asked of them. -/
structure Accounts (policy : GroupAifPolicy aif) (s : GroupState aif) : Prop where
  balanced : Balanced policy s.counters
  shaped : Shaped policy s
  expected : s.expected.sum = (s.counters.rosterSizes.map policy.config.topology.asked).sum

theorem count_pos (policy : GroupAifPolicy aif) :
    0 < policy.config.topology.count policy.config.nRoles := by
  cases policy.config.topology with
  | roleSpecialised => exact policy.nRoles_pos
  | shared => exact Nat.zero_lt_one

/-- What is asked of the world models by a task is expected of them. -/
theorem sum_expected_begun (hshaped : Shaped policy s) {demand : CountedDemand} {task : TaskState}
    (hplan : policy.plan demand = .ok task) :
    (begun policy task s).expected.sum =
      s.expected.sum + policy.config.topology.asked task.roster.length := by
  obtain ⟨required, hroster⟩ := roster_of_plan hplan
  have hlen : s.expected.length = policy.config.topology.count policy.config.nRoles :=
    hshaped.expected.trans hshaped.len
  rw [← hshaped.topology]
  refine sum_expectMore ?_ fun htopology r hr ↦ ?_
  · rw [hlen]
    exact count_pos policy
  · rw [hlen, ← hshaped.topology, htopology]
    rw [hroster] at hr
    exact toNat_lt_of_mem_rosterOf hr

theorem length_roster_le {demand : CountedDemand} {task : TaskState}
    (hplan : policy.plan demand = .ok task) : task.roster.length ≤ policy.config.nRoles := by
  obtain ⟨required, hroster⟩ := roster_of_plan hplan
  rw [hroster]
  exact length_rosterOf_le required

theorem Shaped.performs {call : GroupCall} (h : Shaped policy s)
    (hcall : Performs policy s call t) : Shaped policy t := by
  cases hcall with
  | refuse _ _ => exact ⟨h.topology, h.len, h.updates, h.expected⟩
  | begin _ _ => exact ⟨h.topology, h.len, h.updates, length_expectMore.trans h.expected⟩
  | decide _ _ hdecides =>
      obtain ⟨counter, rfl⟩ := hdecides.state
      exact ⟨h.topology, h.len, h.updates, h.expected⟩
  | skip _ _ _ => exact ⟨h.topology, h.len, h.updates, h.expected⟩
  | observe _ _ _ _ _ hlearned =>
      refine ⟨hlearned.topology.trans h.topology, hlearned.len.trans h.len, ?_, ?_⟩
      · exact hlearned.length.trans (h.updates.trans hlearned.len.symm)
      · exact (congrArg List.length hlearned.expected).trans (h.expected.trans hlearned.len.symm)

theorem Accounts.performs {call : GroupCall} (h : Accounts policy s)
    (hcall : Performs policy s call t) : Accounts policy t := by
  have hshaped := h.shaped.performs hcall
  cases hcall with
  | refuse _ _ =>
      exact ⟨⟨h.balanced.decisions, h.balanced.agreement, h.balanced.routed,
        h.balanced.identical, h.balanced.slots⟩, hshaped, h.expected⟩
  | begin _ hplan =>
      refine ⟨h.balanced.begun (length_roster_le hplan), hshaped, ?_⟩
      rw [sum_expected_begun h.shaped hplan, h.expected, begun, List.map_append, List.sum_append]
      rfl
  | decide _ _ hdecides =>
      obtain ⟨counter, rfl⟩ := hdecides.state
      refine ⟨(h.balanced.closed hdecides.drawn).tallied hdecides.identical_le, hshaped,
        h.expected.trans ?_⟩
      simp only [GroupAifCounters.tallied, GroupAifCounters.rosterSizes_closed,
        GroupAifCounters.opened]
  | skip _ _ _ =>
      exact ⟨⟨h.balanced.decisions, h.balanced.agreement, h.balanced.routed,
        h.balanced.identical, h.balanced.slots⟩, hshaped, h.expected⟩
  | observe _ _ _ _ _ hlearned =>
      have hbalanced := h.balanced
      rw [← hlearned.counters] at hbalanced
      refine ⟨⟨hbalanced.decisions, hbalanced.agreement, hbalanced.routed, hbalanced.identical,
        hbalanced.slots⟩, hshaped, ?_⟩
      rw [GroupState.withCounters, hlearned.counters]
      exact (congrArg List.sum hlearned.expected).trans h.expected

theorem length_of_mapM_run {ε α β : Type} {f : α → ExceptT ε Option β} {l : List α} {bs : List β}
    (h : (l.mapM f).run = some (.ok bs)) : bs.length = l.length := by
  induction l generalizing bs with
  | nil =>
      cases h
      rfl
  | cons a l ih =>
      rw [List.mapM_cons, ExceptT.run_bind] at h
      obtain ⟨head, -, h⟩ := Option.bind_eq_some_iff.mp h
      cases head with
      | error e => cases h
      | ok b =>
          dsimp only at h
          rw [ExceptT.run_bind] at h
          obtain ⟨rest, hrest, h⟩ := Option.bind_eq_some_iff.mp h
          cases rest with
          | error e => cases h
          | ok bs' =>
              cases h
              exact congrArg (· + 1) (ih hrest)

theorem buildModels_eq_ok {batterySeed : UInt64} {config : GroupAifConfig F} {models : Models aif}
    (h : (buildModels aif batterySeed config).run = some (.ok models)) :
    models.topology = config.topology ∧ models.len = config.topology.count config.nRoles := by
  rw [buildModels] at h
  cases htopology : config.topology with
  | roleSpecialised =>
      rw [htopology] at h
      obtain ⟨built, hbuilt, h⟩ := Option.bind_eq_some_iff.mp h
      cases built with
      | error e => cases h
      | ok built =>
          cases h
          exact ⟨rfl, (length_of_mapM_run hbuilt).trans List.length_range⟩
  | shared =>
      rw [htopology] at h
      obtain ⟨built, -, h⟩ := Option.bind_eq_some_iff.mp h
      cases built with
      | error e => cases h
      | ok built =>
          cases h
          exact ⟨rfl, rfl⟩

/-- Nothing has been asked of the arm so far. -/
structure Unused (policy : GroupAifPolicy aif) (s : GroupState aif) : Prop where
  shaped : Shaped policy s
  task : s.task = none
  counters : s.counters = .zero
  updates : s.updates.sum = 0
  expected : s.expected.sum = 0

theorem unused_new {batterySeed : UInt64} {config : GroupAifConfig F}
    {agentRoles : Nat → Option Role}
    (hnew : GroupAifPolicy.new aif batterySeed config agentRoles = some (.ok (policy, s))) :
    Unused policy s := by
  rw [GroupAifPolicy.new] at hnew
  split at hnew
  · cases hnew
  · obtain ⟨built, hbuilt, h⟩ := Option.bind_eq_some_iff.mp hnew
    cases built with
    | error e => cases h
    | ok models =>
        cases h
        obtain ⟨htopology, hlen⟩ := buildModels_eq_ok hbuilt
        have hzero : (List.replicate models.len 0).sum = 0 :=
          List.sum_replicate_nat.trans (Nat.mul_zero _)
        exact ⟨⟨htopology, hlen, List.length_replicate, List.length_replicate⟩, rfl, rfl, hzero,
          hzero⟩

theorem accounts_new {batterySeed : UInt64} {config : GroupAifConfig F}
    {agentRoles : Nat → Option Role}
    (hnew : GroupAifPolicy.new aif batterySeed config agentRoles = some (.ok (policy, s))) :
    Accounts policy s := by
  have hunused := unused_new hnew
  refine ⟨?_, hunused.shaped, ?_⟩
  · rw [hunused.counters]
    exact .zero
  · rw [hunused.counters, hunused.expected]
    rfl

theorem Shaped.length_labels (h : Shaped policy s) :
    (s.models.labels policy.config.nRoles).length = s.models.len := by
  refine Models.length_labels fun htopology ↦ ?_
  rw [h.len, ← h.topology, htopology]
  rfl

/-- What the world models are expected to have learned, as it is reported. -/
theorem map_expected_counters (h : Shaped policy s) :
    (policy.counters s).modelUpdates.map (·.expected) = s.expected := by
  rw [counters, List.map_map]
  exact map_zipIdx_getD (h.length_labels.trans h.expected.symm)

/-! ## The ledger -/

/-- A task is begun, and refused. -/
def Refused (policy : GroupAifPolicy aif) (call : GroupCall) : Prop :=
  ∃ demand e, call.demand? = some demand ∧ policy.plan demand = .error e

/-- A task is begun, and put in force. -/
def Accepted (policy : GroupAifPolicy aif) (call : GroupCall) : Prop :=
  ∃ demand task, call.demand? = some demand ∧ policy.plan demand = .ok task

/-- A refused task leaves no task in force. -/
theorem task_of_refused {call : GroupCall} (hrefused : Refused policy call)
    (hcall : Performs policy s call t) : t.task = none := by
  obtain ⟨demand, e, hdemand, hplan⟩ := hrefused
  cases hcall with
  | refuse _ _ => rfl
  | begin hdemand' hplan' =>
      cases hdemand.symm.trans hdemand'
      cases hplan.symm.trans hplan'
  | decide hdemand' _ _ => cases hdemand.symm.trans hdemand'
  | skip hdemand' _ _ => cases hdemand.symm.trans hdemand'
  | observe hdemand' _ _ _ _ _ => cases hdemand.symm.trans hdemand'

/-- Only an accepted task puts a task in force. -/
theorem task_of_not_accepted {call : GroupCall} (haccepted : ¬Accepted policy call)
    (hcall : Performs policy s call t) (h : s.task = none) : t.task = none := by
  cases hcall with
  | refuse _ _ => rfl
  | begin hdemand hplan => exact absurd ⟨_, _, hdemand, hplan⟩ haccepted
  | decide _ _ hdecides =>
      obtain ⟨counter, rfl⟩ := hdecides.state
      exact h
  | skip _ _ _ => exact h
  | observe _ _ _ _ _ hlearned => exact hlearned.task.trans h

/-- After a refused task, and with none accepted since, a decision has no demand. -/
theorem task_of_run {calls before between : List GroupCall} {refused : GroupCall}
    (hrun : run policy s calls = some t) (hcalls : calls = before ++ refused :: between)
    (hrefused : Refused policy refused) (hbetween : ∀ call ∈ between, ¬Accepted policy call) :
    t.task = none := by
  rw [hcalls, run, List.foldlM_append] at hrun
  obtain ⟨u, -, hrun⟩ := Option.bind_eq_some_iff.mp hrun
  obtain ⟨v, hv, hrun⟩ := Option.bind_eq_some_iff.mp hrun
  obtain ⟨⟨_, v⟩, hperform, rfl⟩ := Option.map_eq_some_iff.mp hv
  have hv : v.task = none := task_of_refused hrefused (perform_ensures refused _ _ hperform)
  exact run_preserves (I := fun s ↦ s.task = none)
    (fun s call hcall t hperforms ↦ task_of_not_accepted (hbetween call hcall) hperforms) hrun hv

/-- After any calls the books balance, and the world models are expected to have learned what
the tasks asked of them.  Once a task was refused, every decision until one is accepted declines
for want of a demand. -/
theorem ledger_balances {batterySeed : UInt64} {config : GroupAifConfig F}
    {agentRoles : Nat → Option Role} {s₀ : GroupState aif} {calls : List GroupCall}
    (hnew : GroupAifPolicy.new aif batterySeed config agentRoles = some (.ok (policy, s₀)))
    (hrun : run policy s₀ calls = some s) :
    Balanced policy (policy.counters s) ∧
      ((policy.counters s).modelUpdates.map (·.expected)).sum =
        policy.config.topology.askedInAll (policy.counters s).rosterSizes ∧
      ∀ before refused between, calls = before ++ refused :: between →
        Refused policy refused → (∀ call ∈ between, ¬Accepted policy call) →
        ∀ agent coalition ctx d t,
          (policy.shouldJoin agent coalition ctx).run s = some (d, t) ∨
            (policy.shouldLeave agent coalition ctx).run s = some (d, t) →
          d = declined ∧ policy.counters t = (policy.counters s).opened.closed .noDemand := by
  have haccounts : Accounts policy s := run_preserves
    (fun s call _ t hperforms h ↦ Accounts.performs h hperforms) hrun (accounts_new hnew)
  have hbalanced := haccounts.balanced
  refine ⟨⟨hbalanced.decisions, hbalanced.agreement, hbalanced.routed, hbalanced.identical,
    hbalanced.slots⟩, ?_, ?_⟩
  · rw [map_expected_counters haccounts.shaped, haccounts.expected,
      WorldModelTopology.askedInAll_eq]
    rfl
  · intro before refused between hcalls hrefused hbetween agent coalition ctx d t hdecide
    have hidle := task_of_run hrun hcalls hrefused hbetween
    have hd : d = declined ∧ t = s.withCounters (s.counters.opened.closed .noDemand) :=
      hdecide.elim (decide_idle hidle d t) (decide_idle hidle d t)
    obtain ⟨rfl, rfl⟩ := hd
    exact ⟨rfl, rfl⟩

/-! ### A refused task -/

/-- The counters of a new arm after some calls. -/
def countersAfter (aif : GroupAif F) (batterySeed : UInt64) (config : GroupAifConfig F)
    (agentRoles : Nat → Option Role) (calls : List GroupCall) : Option (GroupAifCounters F) := do
  match ← GroupAifPolicy.new aif batterySeed config agentRoles with
  | .error _ => none
  | .ok (policy, s) => return policy.counters (← run policy s calls)

theorem exists_run_of_countersAfter {batterySeed : UInt64} {config : GroupAifConfig F}
    {agentRoles : Nat → Option Role} {calls : List GroupCall} {c : GroupAifCounters F}
    (h : countersAfter aif batterySeed config agentRoles calls = some c) :
    ∃ (policy : GroupAifPolicy aif) (s₀ s : GroupState aif),
      GroupAifPolicy.new aif batterySeed config agentRoles = some (.ok (policy, s₀)) ∧
        run policy s₀ calls = some s ∧ policy.counters s = c := by
  obtain ⟨built, hnew, h⟩ := Option.bind_eq_some_iff.mp h
  cases built with
  | error e => cases h
  | ok built =>
      obtain ⟨s, hrun, h⟩ := Option.bind_eq_some_iff.mp h
      cases h
      exact ⟨built.1, built.2, s, hnew, hrun, rfl⟩

section Sample

attribute [local instance] exactNumbers

/-- Two roles, each with a bit of its own. -/
def twoRoles : GroupAifConfig ℚ := { GroupAifConfig.default with
  nRoles := 2
  base := { v5E1Base with nBits := 2 } }

def roleOfId (id : Nat) : Option Role := if id < 2 then some (UInt8.ofNat id) else none

def firstAgent : CapabilityAgent := { id := 0, capabilities := 1, trust := 50 }

def secondAgent : CapabilityAgent := { id := 1, capabilities := 2, trust := 50 }

/-- Each role has its bit to do. -/
def bothDemanded : CountedDemand := ⟨[⟨0, 0⟩, ⟨1, 1⟩]⟩

/-- A task with two decisions and an outcome, and a refused one with another decision. -/
def thenRefused : List GroupCall :=
  [.beginTask bothDemanded,
    .shouldJoin firstAgent [secondAgent] { requiredCapabilities := 3 },
    .shouldLeave firstAgent [firstAgent, secondAgent] { requiredCapabilities := 3 },
    .observeOutcome [true, false],
    .beginTask ⟨[⟨0, 7⟩]⟩,
    .shouldJoin firstAgent [secondAgent] { requiredCapabilities := 3 }]

theorem refused_ledger_balances : ∃ (policy : GroupAifPolicy undecidedGroup)
    (s₀ s : GroupState undecidedGroup),
    GroupAifPolicy.new undecidedGroup 0 twoRoles roleOfId = some (.ok (policy, s₀)) ∧
      run policy s₀ thenRefused = some s ∧
      (policy.counters s).decisions = 3 ∧ (policy.counters s).reads = 2 ∧
      (policy.counters s).declinesNoDemand = 1 ∧ Balanced policy (policy.counters s) := by
  have hcounters : ∃ c ∈ countersAfter undecidedGroup 0 twoRoles roleOfId thenRefused,
      c.decisions = 3 ∧ c.reads = 2 ∧ c.declinesNoDemand = 1 := by decide +kernel
  obtain ⟨c, hc, hdecisions, hreads, hdeclines⟩ := hcounters
  obtain ⟨policy, s₀, s, hnew, hrun, rfl⟩ := exists_run_of_countersAfter hc
  exact ⟨policy, s₀, s, hnew, hrun, hdecisions, hreads, hdeclines, (ledger_balances hnew hrun).1⟩

end Sample

end GroupAifPolicy

end Koalisi.Decision
