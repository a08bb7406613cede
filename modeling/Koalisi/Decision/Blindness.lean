import Koalisi.Decision.Gate

/-!
# What the group does not see of a candidate

With role-matched coverage a candidate reaches the internal agent of its own role only.  If the
task has nothing for that role, no internal agent sees the candidate at all: two decisions that
differ in what the candidate can do are the same, and leave the same behind
(`candidate_invisible`).

On a leave the candidate is one of the coalition.  It has its role there too, by its id, so it is
not in the union that the others see either.
-/

namespace Koalisi.Decision

open Koalisi.Lib Koalisi.Lib.Masks
open Koalisi.Harness (CapabilityAgent Role)
open Koalisi.Topology (Decision DecisionContext)

variable {F : Type} [FloatingPoint F]

/-! ## Two runs -/

/-- The same agent, but for what an agent of some id can do. -/
def AgreeBut (id : Nat) (a b : CapabilityAgent) : Prop :=
  a.id = b.id ∧ (a.id ≠ id → a.capabilities = b.capabilities)

/-- The same participant, but for what a participant of some role can do. -/
def Participant.AgreeBut (role : Role) (p q : Participant) : Prop :=
  p.role = q.role ∧ p.agentId = q.agentId ∧ (p.role ≠ role → p.capabilities = q.capabilities)

/-! ## What an internal agent receives -/

section Masks

variable {role : Role} {candidate candidate' : Participant} {members members' : List Participant}
  {leave : Bool}

/-- What the members of a role can do together, on a leave without some agent. -/
def unionOf (role : Role) (members : List Participant) (leave : Bool) (id : Nat) : UInt32 :=
  (members.filter fun m ↦ m.role = role && !(leave && m.agentId = id)).foldl
    (fun acc m ↦ acc ||| m.capabilities) 0

/-- Another role than that of the candidate sees the members of the role, and nobody else. -/
theorem coverageMasks_of_ne (hne : candidate.role ≠ role) :
    coverageMasks .roleMatched role candidate members leave =
      { cfg0 := if leave then unionOf role members leave candidate.agentId else 0
        cfg1 := unionOf role members leave candidate.agentId
        candidateSensitive := false } := by
  unfold coverageMasks
  simp only [decide_eq_false hne, decide_true, Bool.not_true, Bool.false_or, Bool.false_eq_true,
    if_false, UInt32.or_zero, UInt32.zero_or]
  cases leave with
  | true => rfl
  | false => rfl

/-- Members that agree but for another role can do the same. -/
theorem unionOf_eq {other : Role} (hne : other ≠ role)
    (hmembers : List.Forall₂ (Participant.AgreeBut other) members members') (id : Nat) :
    unionOf role members leave id = unionOf role members' leave id := by
  unfold unionOf
  generalize (0 : UInt32) = union
  induction hmembers generalizing union with
  | nil => rfl
  | @cons a b _ _ hab _ ih =>
      obtain ⟨hrole, hid, hcaps⟩ := hab
      rw [List.filter_cons, List.filter_cons, hrole, hid]
      split
      case isFalse => exact ih union
      case isTrue hb =>
        have hb : b.role = role := of_decide_eq_true (Bool.and_eq_true_iff.mp hb).1
        have ha : a.role ≠ other := by
          rw [hrole, hb]
          exact hne.symm
        rw [List.foldl_cons, List.foldl_cons, hcaps ha]
        exact ih _

/-- Another role than that of the candidate does not see what the candidate can do. -/
theorem coverageMasks_eq (hrole : candidate.role = candidate'.role)
    (hid : candidate.agentId = candidate'.agentId) (hne : candidate.role ≠ role)
    (hmembers : List.Forall₂ (Participant.AgreeBut candidate.role) members members') :
    coverageMasks .roleMatched role candidate members leave =
      coverageMasks .roleMatched role candidate' members' leave := by
  rw [coverageMasks_of_ne hne, coverageMasks_of_ne (hrole ▸ hne), unionOf_eq hne hmembers, hid]

/-- On a leave it sees the same coalition twice. -/
theorem cfg0_eq_cfg1 (hne : candidate.role ≠ role) :
    (coverageMasks .roleMatched role candidate members true).cfg0 =
      (coverageMasks .roleMatched role candidate members true).cfg1 := by
  rw [coverageMasks_of_ne hne]
  rfl

end Masks

namespace GroupAifPolicy

variable {aif : GroupAif F} {policy : GroupAifPolicy aif}

/-! ## A decision -/

/-- Who a member of a coalition takes part as. -/
def participantOf (policy : GroupAifPolicy aif) (m : CapabilityAgent) : Option Participant :=
  (policy.agentRoles m.id).bind fun role ↦ some ⟨role, m.id, m.capabilities⟩

theorem resolveParticipants_eq {agent : CapabilityAgent} {coalition : List CapabilityAgent} :
    policy.resolveParticipants agent coalition = (policy.agentRoles agent.id).bind fun role ↦
      (coalition.mapM policy.participantOf).bind fun members ↦ some (role, members) := rfl

/-- Members of the id of the candidate have its role. -/
theorem participantOf_rel {id : Nat} {role : Role} (hrole : policy.agentRoles id = some role)
    (a b : CapabilityAgent) (hab : AgreeBut id a b) :
    Option.Rel (Participant.AgreeBut role) (policy.participantOf a) (policy.participantOf b) := by
  obtain ⟨hids, hcaps⟩ := hab
  rw [participantOf, participantOf, ← hids]
  cases hother : policy.agentRoles a.id with
  | none => exact .none
  | some other =>
      refine .some ⟨rfl, rfl, fun hne ↦ hcaps fun ha ↦ hne ?_⟩
      rw [ha, hrole] at hother
      exact (Option.some.inj hother).symm

/-- Participants are resolved by their ids. -/
theorem resolveParticipants_rel {agent agent' : CapabilityAgent}
    {coalition coalition' : List CapabilityAgent} (hid : agent.id = agent'.id)
    (hcoalition : List.Forall₂ (AgreeBut agent.id) coalition coalition') :
    Option.Rel (fun p q ↦ p.1 = q.1 ∧ policy.agentRoles agent.id = some p.1 ∧
        List.Forall₂ (Participant.AgreeBut p.1) p.2 q.2)
      (policy.resolveParticipants agent coalition)
      (policy.resolveParticipants agent' coalition') := by
  rw [resolveParticipants_eq, resolveParticipants_eq, ← hid]
  cases hrole : policy.agentRoles agent.id with
  | none => exact .none
  | some role =>
      have hmembers := mapM_rel (participantOf_rel hrole) hcoalition
      rw [Option.bind_some, Option.bind_some]
      generalize coalition.mapM policy.participantOf = members,
        coalition'.mapM policy.participantOf = members' at hmembers
      cases hmembers with
      | none => exact .none
      | some hmembers => exact .some ⟨rfl, rfl, hmembers⟩

/-- Internal agents of roles other than that of the candidate are built as they would be for a
candidate that can do something else. -/
theorem buildInternals_eq (hmasks : policy.config.masks = .roleMatched) {models : Models aif}
    {task : TaskState} {candidate candidate' : Participant} {members members' : List Participant}
    {leave : Bool} {seed : UInt64} (hrole : candidate.role = candidate'.role)
    (hid : candidate.agentId = candidate'.agentId)
    (hmembers : List.Forall₂ (Participant.AgreeBut candidate.role) members members')
    {roles : List Role} (hroles : candidate.role ∉ roles) (tally : LeaveTally) :
    policy.buildInternals models task candidate members leave seed roles tally =
      policy.buildInternals models task candidate' members' leave seed roles tally := by
  induction roles generalizing tally with
  | nil => rfl
  | cons role roles ih =>
      rw [List.mem_cons, not_or] at hroles
      have hrest := ih hroles.2
      rw [buildInternals, buildInternals, hmasks, coverageMasks_eq hrole hid hroles.1 hmembers]
      simp only [hrest]

/-- What becomes of the internal agents once they are built. -/
def readBuilt (policy : GroupAifPolicy aif) (task : TaskState) (agentRole : Role) (leave : Bool)
    (seed : UInt64) : Except LeaveTally (List (RoleMember aif) × LeaveTally) →
      StateT (GroupState aif) Option (Decision F)
  | .error tally => declineUpstream tally
  | .ok (internals, tally) => policy.readGroup task agentRole leave seed internals tally

/-- A decision reads the candidate and the coalition only to build the internal agents. -/
theorem decide_run {s : GroupState aif} {task : TaskState} (htask : s.task = some task)
    {agent : CapabilityAgent} {coalition : List CapabilityAgent} {role : Role}
    {members : List Participant}
    (hresolved : policy.resolveParticipants agent coalition = some (role, members))
    {seed : UInt64} (hseed : seed = policy.batterySeed ^^^ splitmix64 (s.decisionCounter + 1))
    (leave : Bool) :
    (policy.decide agent coalition leave).run s =
      (StateT.lift (policy.buildInternals s.models task ⟨role, agent.id, agent.capabilities⟩ members
        leave seed task.roster ⟨0, 0⟩) >>= policy.readBuilt task role leave seed).run
        { s with
          counters := { s.counters with decisions := s.counters.decisions + 1 }
          decisionCounter := s.decisionCounter + 1 } := by
  obtain ⟨_, counters, updates, expected, counter, models⟩ := s
  cases htask
  cases hseed
  unfold decide
  simp only [hresolved]
  rfl

/-- Without a task a decision reads neither. -/
theorem decide_run_of_no_task {s : GroupState aif} (htask : s.task = none)
    (agent : CapabilityAgent) (coalition : List CapabilityAgent) (leave : Bool) :
    (policy.decide agent coalition leave).run s =
      some (declined,
        { s with
          counters :=
            { s.counters with
              decisions := s.counters.decisions + 1
              declinesNoDemand := s.counters.declinesNoDemand + 1 } }) := by
  obtain ⟨_, counters, updates, expected, counter, models⟩ := s
  cases htask
  rfl

/-- A decision about a candidate whose role the task has nothing for. -/
theorem decide_eq (hmasks : policy.config.masks = .roleMatched) {s : GroupState aif}
    {agent agent' : CapabilityAgent} {coalition coalition' : List CapabilityAgent}
    (hid : agent.id = agent'.id)
    (hcoalition : List.Forall₂ (AgreeBut agent.id) coalition coalition')
    (hroster : ∀ task ∈ s.task, ∀ role ∈ policy.agentRoles agent.id, role ∉ task.roster)
    (leave : Bool) :
    (policy.decide agent coalition leave).run s =
      (policy.decide agent' coalition' leave).run s := by
  have hrel : Option.Rel _ (policy.resolveParticipants agent coalition)
      (policy.resolveParticipants agent' coalition') := resolveParticipants_rel hid hcoalition
  cases htask : s.task with
  | none => rw [decide_run_of_no_task htask, decide_run_of_no_task htask]
  | some task =>
      cases hleft : policy.resolveParticipants agent coalition with
      | none =>
          cases hright : policy.resolveParticipants agent' coalition' with
          | none =>
              unfold decide
              simp only [hleft, hright]
          | some q =>
              rw [hleft, hright] at hrel
              cases hrel
      | some p =>
          cases hright : policy.resolveParticipants agent' coalition' with
          | none =>
              rw [hleft, hright] at hrel
              cases hrel
          | some q =>
              rw [hleft, hright] at hrel
              obtain ⟨role, members⟩ := p
              obtain ⟨role', members'⟩ := q
              obtain ⟨hroles, hrole, hmembers⟩ : role = role' ∧
                  policy.agentRoles agent.id = some role ∧
                  List.Forall₂ (Participant.AgreeBut role) members members' := by
                cases hrel with
                | some h => exact h
              subst hroles
              have hbuild : ∀ seed, policy.buildInternals s.models task
                  ⟨role, agent.id, agent.capabilities⟩ members leave seed task.roster ⟨0, 0⟩ =
                    policy.buildInternals s.models task ⟨role, agent'.id, agent'.capabilities⟩
                      members' leave seed task.roster ⟨0, 0⟩ := by
                intro seed
                refine buildInternals_eq hmasks ?_ hid hmembers (hroster task htask role hrole) _
                rfl
              rw [decide_run htask hleft rfl, decide_run htask hright rfl, hbuild]

/-! ## What is built for a leave -/

/-- The internal agent of a role was built for one coverage, with and without the candidate. -/
def OneCoverage (policy : GroupAifPolicy aif) (models : Models aif) (task : TaskState)
    (seed : UInt64) (role : Role) (member : RoleMember aif) : Prop :=
  ∃ model ∈ models.view role, ∃ required ∈ task.required[role.toNat]?, ∃ coverage scale,
    policy.arm.roleQuery model (required &&& lowMask policy.nBits) coverage coverage
      (seed ^^^ splitmix64 (UInt64.ofNat role.toNat + 1)) scale =
        some (.ok (member.query, member.replay))

theorem forall₂_oneCoverage (hmasks : policy.config.masks = .roleMatched) {models : Models aif}
    {task : TaskState} {candidate : Participant} {members : List Participant} {seed : UInt64}
    {roles : List Role} {tally tally' : LeaveTally} {internals : List (RoleMember aif)}
    (hbuilt : policy.buildInternals models task candidate members true seed roles tally =
      some (.ok (internals, tally'))) :
    List.Forall₂ (fun role member ↦ candidate.role ≠ role →
      OneCoverage policy models task seed role member) roles internals := by
  induction roles generalizing tally internals tally' with
  | nil =>
      cases hbuilt
      exact .nil
  | cons role roles ih =>
      obtain ⟨required, hrequired, hbuilt⟩ := Option.bind_eq_some_iff.mp hbuilt
      cases hview : models.view role with
      | none =>
          rw [hview] at hbuilt
          cases hbuilt
      | some model =>
          rw [hview] at hbuilt
          obtain ⟨query, hquery, hbuilt⟩ := Option.bind_eq_some_iff.mp hbuilt
          cases query with
          | error e => cases hbuilt
          | ok query =>
              obtain ⟨rest, hrest, hbuilt⟩ := Option.bind_eq_some_iff.mp hbuilt
              cases rest with
              | error tally => cases hbuilt
              | ok rest =>
                  cases hbuilt
                  refine .cons (fun hne ↦ ?_) (ih hrest)
                  rw [hmasks, cfg0_eq_cfg1 hne] at hquery
                  exact ⟨model, hview, required, hrequired, _, _, hquery⟩

/-- If the task has nothing for the role of a candidate, decisions that differ in what the
candidate can do are the same, and so is what they leave behind.  On a leave, the internal
agents of all other roles are built for one coverage. -/
theorem candidate_invisible (policy : GroupAifPolicy aif)
    (hmasks : policy.config.masks = .roleMatched) (s : GroupState aif) (agent : CapabilityAgent)
    (coalition : List CapabilityAgent) :
    ((∀ task ∈ s.task, ∀ role ∈ policy.agentRoles agent.id, role ∉ task.roster) →
      ∀ (agent' : CapabilityAgent) (coalition' : List CapabilityAgent), agent.id = agent'.id →
        List.Forall₂ (AgreeBut agent.id) coalition coalition' → ∀ ctx,
          (policy.shouldJoin agent coalition ctx).run s =
              (policy.shouldJoin agent' coalition' ctx).run s ∧
            (policy.shouldLeave agent coalition ctx).run s =
              (policy.shouldLeave agent' coalition' ctx).run s) ∧
    ∀ role members, policy.resolveParticipants agent coalition = some (role, members) →
      (∀ other, role ≠ other →
        (coverageMasks policy.config.masks other ⟨role, agent.id, agent.capabilities⟩ members
            true).cfg0 =
          (coverageMasks policy.config.masks other ⟨role, agent.id, agent.capabilities⟩ members
            true).cfg1) ∧
      ∀ task ∈ s.task, ∀ seed internals tally,
        policy.buildInternals s.models task ⟨role, agent.id, agent.capabilities⟩ members true seed
            task.roster ⟨0, 0⟩ = some (.ok (internals, tally)) →
          List.Forall₂ (fun other member ↦ role ≠ other →
            OneCoverage policy s.models task seed other member) task.roster internals := by
  refine ⟨fun hroster agent' coalition' hid hcoalition ctx ↦ ?_, fun role members _ ↦ ?_⟩
  · exact ⟨decide_eq hmasks hid hcoalition hroster false,
      decide_eq hmasks hid hcoalition hroster true⟩
  · rw [hmasks]
    exact ⟨fun other hne ↦ cfg0_eq_cfg1 hne,
      fun task _ seed internals tally hbuilt ↦ forall₂_oneCoverage hmasks hbuilt⟩

/-! ### A task for another role -/

section Sample

attribute [local instance] exactNumbers

/-- A task for the first role, and its outcome. -/
def firstRoleOnly : List GroupCall := [.beginTask ⟨[⟨0, 0⟩]⟩, .observeOutcome [true, false]]

theorem second_agent_invisible : ∃ (policy : GroupAifPolicy undecidedGroup)
    (s₀ s : GroupState undecidedGroup),
    GroupAifPolicy.new undecidedGroup 0 twoRoles roleOfId = some (.ok (policy, s₀)) ∧
      run policy s₀ firstRoleOnly = some s ∧ s.task.isSome ∧
      (policy.shouldLeave secondAgent [firstAgent, secondAgent] ⟨3⟩).run s =
        (policy.shouldLeave { secondAgent with capabilities := 0 }
          [firstAgent, { secondAgent with capabilities := 0 }] ⟨3⟩).run s := by
  have hafter : ExactAfter undecidedGroup twoRoles roleOfId firstRoleOnly fun policy _ s ↦
      policy.config.masks = .roleMatched ∧ s.task.isSome ∧
        ∀ task ∈ s.task, ∀ role ∈ policy.agentRoles secondAgent.id, role ∉ task.roster := by
    decide +kernel
  obtain ⟨policy, s₀, s, hnew, hrun, -, hmasks, hsome, hroster⟩ := exists_of_exactAfter hafter
  refine ⟨policy, s₀, s, hnew, hrun, hsome, ?_⟩
  have hblind := (candidate_invisible policy hmasks s secondAgent [firstAgent, secondAgent]).1
    hroster { secondAgent with capabilities := 0 }
    [firstAgent, { secondAgent with capabilities := 0 }] rfl
    (.cons ⟨rfl, fun _ ↦ rfl⟩ (.cons ⟨rfl, fun hne ↦ absurd rfl hne⟩ .nil)) ⟨3⟩
  exact hblind.2

end Sample

end GroupAifPolicy

end Koalisi.Decision
