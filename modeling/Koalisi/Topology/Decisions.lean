import Koalisi.Topology.Coalitions

/-!
# Decisions about who belongs to a coalition

A policy is asked whether an agent should join or leave, and the manager applies the
answer.  Between the two the members are read and their weights fetched, each in a read
of its own.  A policy may keep state of its own and may panic, so what is modelled of it
is how it answers when it is consulted.

`tryJoinCoalition_log` and `tryLeaveCoalition_log` say what a decision does to the log
and the clock: one event and one tick if it acted, nothing if it did not or failed.
-/

namespace Koalisi.Topology

open Koalisi.Lib Koalisi.Lib.Fallible Koalisi.Topology.Hypergraph

variable {G V HE E Score T : Type}

/-- Outcome of a join/leave decision. -/
structure Decision (Score : Type) where
  act : Bool
  /-- The scalar the decision was made from. -/
  score : Score
deriving DecidableEq, Repr

/-- Context for a decision. -/
structure DecisionContext where
  requiredCapabilities : UInt32
deriving DecidableEq, Repr

/-- A policy, as it stands when it is consulted; `none` is a panic. -/
structure CoalitionDecisionPolicy (V Score : Type) where
  /-- Whether an agent should join these others. -/
  shouldJoin : V → List V → DecisionContext → Option (Decision Score)
  /-- Whether an agent should leave these members, of which it is one. -/
  shouldLeave : V → List V → DecisionContext → Option (Decision Score)

namespace TemporalHypergraph

/-- Run a job under the graph's read lock. -/
def read (f : G → Except E T) : EStateM (Fault E) (TemporalHypergraph G V HE) T := look fun self ↦
  if self.poisoned then .error (.err .lockPoisoned)
  else (f self.graph).mapError fun error ↦ .err (.hypergraph error)

end TemporalHypergraph

namespace CoalitionManager

open TemporalHypergraph

variable [Hypergraph G V HE E]

/-- Get an agent's data. -/
def getAgent (agent : VertexIndex) : EStateM (Fault E) (TemporalHypergraph G V HE) V :=
  read (getVertexWeight agent)

/-- Get the current members of a coalition. -/
def coalitionMembers (coalition : HyperedgeIndex) :
    EStateM (Fault E) (TemporalHypergraph G V HE) (List VertexIndex) :=
  read (getHyperedgeVertices coalition)

/-- Fetch the weights of members, preserving order. -/
def agentWeights (members : List VertexIndex) :
    EStateM (Fault E) (TemporalHypergraph G V HE) (List V) :=
  members.mapM getAgent

/-- Await the answer of a policy. -/
def consult (answer : Option (Decision Score)) :
    EStateM (Fault E) (TemporalHypergraph G V HE) (Decision Score) :=
  look fun _ ↦ match answer with
    | some decision => .ok decision
    | none => .error .panic

/-- Make the change a policy was asked about iff the policy says so. -/
def applyDecision (call : Call V HE E) (decision : Decision Score) :
    EStateM (Fault E) (TemporalHypergraph G V HE) (Decision Score) := do
  if decision.act then
    let _ ← mutate call.mutation
  return decision

/-- Consult a policy about whether an agent should join a coalition, and apply the join
iff the policy says so. -/
def tryJoinCoalition (agent : VertexIndex) (coalition : HyperedgeIndex)
    (policy : CoalitionDecisionPolicy V Score) (ctx : DecisionContext) :
    EStateM (Fault E) (TemporalHypergraph G V HE) (Decision Score) := do
  let agentWeight ← getAgent agent
  -- the members a candidate is compared with exclude it
  let members ← coalitionMembers coalition
  let weights ← agentWeights (members.filter (· ≠ agent))
  let decision ← consult (policy.shouldJoin agentWeight weights ctx)
  applyDecision (joinCoalition agent coalition) decision

/-- The weight of an agent among members and their weights, if it is a member.  The index
into the weights is out of bounds nowhere. -/
def memberWeight (agent : VertexIndex) (members : List VertexIndex) (weights : List V) :
    Option (Option V) :=
  (members.findIdx? (· = agent)).map fun pos ↦ weights[pos]?

/-- Consult a policy about whether an agent should leave a coalition, and apply the leave
iff the policy says so. -/
def tryLeaveCoalition [Zero Score] (agent : VertexIndex) (coalition : HyperedgeIndex)
    (policy : CoalitionDecisionPolicy V Score) (ctx : DecisionContext) :
    EStateM (Fault E) (TemporalHypergraph G V HE) (Decision Score) := do
  let members ← coalitionMembers coalition
  let weights ← agentWeights members
  match memberWeight agent members weights with
  -- there is nothing to leave
  | none => return { act := false, score := 0 }
  | some none => throw .panic
  | some (some agentView) =>
      let decision ← consult (policy.shouldLeave agentView weights ctx)
      applyDecision (leaveCoalition agent coalition) decision

/-! ## What a decision does to the log -/

section Log

variable {agent : VertexIndex} {coalition : HyperedgeIndex}
variable {policy : CoalitionDecisionPolicy V Score} {ctx : DecisionContext}
variable {self self' : TemporalHypergraph G V HE}

theorem still_getAgent (agent : VertexIndex) :
    Still (getAgent agent : EStateM (Fault E) (TemporalHypergraph G V HE) V) :=
  still_look _

theorem still_coalitionMembers (coalition : HyperedgeIndex) :
    Still (coalitionMembers coalition :
      EStateM (Fault E) (TemporalHypergraph G V HE) (List VertexIndex)) :=
  still_look _

theorem still_agentWeights (members : List VertexIndex) :
    Still (agentWeights members : EStateM (Fault E) (TemporalHypergraph G V HE) (List V)) :=
  still_mapM still_getAgent members

/-- A decision that was returned is recorded if it acted, and leaves no trace if it did not. -/
def Placed (self self' : TemporalHypergraph G V HE) (decision : Decision Score) : Prop :=
  (decision.act = false ∧ self' = self) ∨
    (decision.act = true ∧ ∃ event, Records self event self')

variable [LawfulHypergraph G]

theorem placed_applyDecision {call : Call V HE E} {decision decision' : Decision Score}
    (h : applyDecision call decision self = .ok decision' self') :
    Placed self self' decision' := by
  unfold applyDecision at h
  cases ha : decision.act with
  | false =>
      rw [ha] at h
      obtain ⟨rfl, rfl⟩ := pure_eq_ok.mp h
      exact Or.inl ⟨ha, rfl⟩
  | true =>
      rw [ha, if_pos rfl] at h
      obtain ⟨_, mid, hm, hp⟩ := bind_eq_ok.mp h
      obtain ⟨rfl, rfl⟩ := pure_eq_ok.mp hp
      obtain ⟨event, hrecords, -⟩ := records_of_ok hm
      exact Or.inr ⟨ha, event, hrecords⟩

theorem failed_applyDecision {call : Call V HE E} {decision : Decision Score} {fault : Fault E}
    (h : applyDecision call decision self = .error fault self') : Failed self self' := by
  unfold applyDecision at h
  cases ha : decision.act with
  | false =>
      rw [ha] at h
      exact absurd h pure_ne_error
  | true =>
      rw [ha, if_pos rfl] at h
      rcases bind_eq_error.mp h with h | ⟨_, _, -, h⟩
      · exact failed_of_error h
      · exact absurd h pure_ne_error

/-- A join that was decided on. -/
theorem placed_tryJoinCoalition {decision : Decision Score}
    (h : tryJoinCoalition agent coalition policy ctx self = .ok decision self') :
    Placed self self' decision := by
  obtain ⟨weight, h⟩ := (still_look _).bind_eq_ok h
  obtain ⟨members, h⟩ := (still_look _).bind_eq_ok h
  obtain ⟨weights, h⟩ := (still_agentWeights _).bind_eq_ok h
  obtain ⟨_, h⟩ := (still_look _).bind_eq_ok h
  exact placed_applyDecision h

theorem failed_tryJoinCoalition {fault : Fault E}
    (h : tryJoinCoalition agent coalition policy ctx self = .error fault self') :
    Failed self self' := by
  rcases (still_look _).bind_eq_error h with rfl | ⟨weight, h⟩
  · exact Or.inl rfl
  rcases (still_look _).bind_eq_error h with rfl | ⟨members, h⟩
  · exact Or.inl rfl
  rcases (still_agentWeights _).bind_eq_error h with rfl | ⟨weights, h⟩
  · exact Or.inl rfl
  rcases (still_look _).bind_eq_error h with rfl | ⟨_, h⟩
  · exact Or.inl rfl
  · exact failed_applyDecision h

variable [Zero Score]

/-- A leave that was decided on, or nothing to leave. -/
theorem placed_tryLeaveCoalition {decision : Decision Score}
    (h : tryLeaveCoalition agent coalition policy ctx self = .ok decision self') :
    Placed self self' decision := by
  obtain ⟨members, h⟩ := (still_look _).bind_eq_ok h
  obtain ⟨weights, h⟩ := (still_agentWeights _).bind_eq_ok h
  generalize memberWeight agent members weights = found at h
  rcases found with _ | _ | agentView
  · obtain ⟨rfl, rfl⟩ := pure_eq_ok.mp h
    exact Or.inl ⟨rfl, rfl⟩
  · cases h
  · obtain ⟨_, h⟩ := (still_look _).bind_eq_ok h
    exact placed_applyDecision h

theorem failed_tryLeaveCoalition {fault : Fault E}
    (h : tryLeaveCoalition agent coalition policy ctx self = .error fault self') :
    Failed self self' := by
  rcases (still_look _).bind_eq_error h with rfl | ⟨members, h⟩
  · exact Or.inl rfl
  rcases (still_agentWeights _).bind_eq_error h with rfl | ⟨weights, h⟩
  · exact Or.inl rfl
  generalize memberWeight agent members weights = found at h
  rcases found with _ | _ | agentView
  · exact absurd h pure_ne_error
  · cases h
    exact Or.inl rfl
  · rcases (still_look _).bind_eq_error h with rfl | ⟨_, h⟩
    · exact Or.inl rfl
    · exact failed_applyDecision h

end Log

end CoalitionManager

end Koalisi.Topology
