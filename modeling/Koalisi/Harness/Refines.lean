import Mathlib.Algebra.Order.Field.Basic
import Mathlib.Algebra.Order.Ring.Rat
import Mathlib.Data.Rat.Cast.Order
import Koalisi.Harness.Flat
import Koalisi.Harness.Solvable

/-!
# The process-structured runner refines the flat one

A process-structured task that is stripped of its steps is a flat task: the required bits
are those of its demand.  A policy whose answers depend on nothing but the questions it has
been asked is led by the two runners to the same coalitions, by the same questions.  The
one runner sweeps over the arrivals and looks for each of them among the members; the other
one sweeps over a copy of the members.  In a list without duplicates that is the same.

Covering a step takes a member of its role, so it is harder than covering its bit: what the
one runner counts as a success, the other one counts as completed.
-/

namespace Koalisi.Harness

open Koalisi.Lib Koalisi.Lib.Masks Koalisi.Lib.Fallible Koalisi.Lib.Transcript
open Koalisi.Topology (U64 Decision DecisionContext)

variable {σ F α : Type}

/-! ## Policies that answer questions -/

/-- A question about one agent and a coalition. -/
structure Question where
  /-- Whether it is about leaving. -/
  leave : Bool
  agent : CapabilityAgent
  coalition : List CapabilityAgent
  ctx : DecisionContext
deriving DecidableEq, Repr

/-- What a policy does when it is asked: it remembers the question, and answers by what it
remembers. -/
def Answered (asked : σ → List Question) (respond : List Question → Option (Decision F))
    (question : Question) (x : StateT σ Option (Decision F)) : Prop :=
  ∀ s, (x.run s).map (Prod.map id asked) =
    (respond (asked s ++ [question])).map (·, asked s ++ [question])

/-- What a policy does when it is told something: it may take note of it, but not so that its
answers depend on it. -/
def Ignored (asked : σ → List Question) (x : StateT σ Option Unit) : Prop :=
  ∀ s, (x.run s).map (Prod.map id asked) = some ((), asked s)

/-- The answers of the policy depend on the questions that it has been asked so far, and on
nothing else. -/
structure Policy.Answers (policy : Policy σ F) (asked : σ → List Question)
    (respond : List Question → Option (Decision F)) : Prop where
  joins (agent : CapabilityAgent) (coalition : List CapabilityAgent) (ctx : DecisionContext) :
    Answered asked respond ⟨false, agent, coalition, ctx⟩ (policy.shouldJoin agent coalition ctx)
  leaves (agent : CapabilityAgent) (coalition : List CapabilityAgent) (ctx : DecisionContext) :
    Answered asked respond ⟨true, agent, coalition, ctx⟩ (policy.shouldLeave agent coalition ctx)
  begins (start : TaskStart) : Ignored asked (policy.beginTask start)
  observes (required : UInt32) (bits : List Bool) (members : List MemberOutcome) :
    Ignored asked (policy.observeOutcome required bits members)

/-! ## What is left of a coalition -/

/-- The flat task: the arrivals, and the bits of the demand. -/
def WorkflowTask.flat (task : WorkflowTask) : Task where
  required := requiredMask task.demand
  arrival := task.arrival

/-- The flat instance. -/
def WorkflowInstance.flat (inst : WorkflowInstance) : Instance where
  seed := inst.seed
  agents := inst.agents
  tasks := inst.tasks.map WorkflowTask.flat

/-- One task, as it is run, of which the coalition is kept and not the scores. -/
def endTask (policy : Policy σ F) (inst : WorkflowInstance) (signal : OutcomeSignal)
    (performance : Option (List (List Bool))) (acc : List (List Nat) × Nat)
    (task : WorkflowTask × Nat) : EStateM Interrupt σ (List (List Nat) × Nat) := do
  let (task, t) := task
  let required := requiredMask task.demand
  call (policy.beginTask ⟨required, task.demand.distinct.map fun s ↦ (s.bit, s.role)⟩)
  let ctx : DecisionContext := ⟨required⟩
  let members ← joins policy inst.agents ctx task.arrival
  let (members, churn) ← leaves policy inst.agents ctx task.arrival members acc.2
  let bits ← unwrap (perBit inst signal performance t task members)
  let outcomes ← unwrap (taskMemberOutcomes inst.agents members performance t)
  call (policy.observeOutcome required bits outcomes)
  return (acc.1 ++ [members], churn)

/-- The coalition at the end of each task, and how many members left. -/
def coalitions (policy : Policy σ F) (inst : WorkflowInstance) (signal : OutcomeSignal) :
    EStateM Interrupt σ (List (List Nat) × Nat) := do
  let performance ← look fun _ ↦ (performanceRows inst signal).mapError .error
  inst.tasks.zipIdx.foldlM (endTask policy inst signal performance) ([], 0)

namespace Flat

/-- One flat task, of which the coalition is kept and not the scores. -/
def endTask (policy : Policy σ F) (agents : List CapabilityAgent) (acc : List (List Nat) × Nat)
    (task : Task) : EStateM Interrupt σ (List (List Nat) × Nat) := do
  call (policy.beginTask ⟨task.required, []⟩)
  let ctx : DecisionContext := ⟨task.required⟩
  let members ← joins policy agents ctx task.arrival
  let (members, churn) ← leaves policy agents ctx members acc.2
  let union ← unwrap (union agents members)
  let perBit := (List.range flatSignalWidth).map (Holds union)
  let outcomes ← unwrap (memberOutcomes agents members fun _ ↦ true)
  call (policy.observeOutcome task.required perBit outcomes)
  return (acc.1 ++ [members], churn)

/-- The coalition at the end of each task, and how many members left. -/
def coalitions (policy : Policy σ F) (inst : Instance) :
    EStateM Interrupt σ (List (List Nat) × Nat) :=
  inst.tasks.foldlM (endTask policy inst.agents) ([], 0)

end Flat

/-! ## The same questions -/

section Follows

variable {asked : σ → List Question} {respond : List Question → Option (Decision F)}
  {policy : Policy σ F} {agents : List CapabilityAgent} {ctx : DecisionContext}

/-- Two states from which the same questions have been asked. -/
def SameQuestions (asked : σ → List Question) (s t : σ) : Prop := asked s = asked t

theorem Answered.follows {question : Question} {x : StateT σ Option (Decision F)}
    (h : Answered asked respond question x) :
    Follows (SameQuestions asked) (· = ·) (call x) (call x) := by
  intro s t decision t' hst hrun
  have ht := h t
  rw [call_eq_ok.mp hrun, Option.map_some] at ht
  have hs := h s
  rw [show asked s = asked t from hst, ← ht] at hs
  obtain ⟨⟨decision', s'⟩, hxs, heq⟩ := Option.map_eq_some_iff.mp hs
  obtain ⟨rfl, hasked⟩ := Prod.mk.inj heq
  exact ⟨decision', s', call_eq_ok.mpr hxs, hasked, rfl⟩

/-- What is ignored can be told to one of two policies that have been asked the same. -/
theorem Ignored.ends {x : StateT σ Option Unit} (h : Ignored asked x) (s t : σ)
    (hst : SameQuestions asked s t) : ∃ s', call x s = .ok () s' ∧ SameQuestions asked s' t := by
  obtain ⟨⟨_, s'⟩, hxs, heq⟩ := Option.map_eq_some_iff.mp (h s)
  exact ⟨s', call_eq_ok.mpr hxs, (Prod.mk.inj heq).2.trans hst⟩

theorem Ignored.keeps {x : StateT σ Option Unit} (h : Ignored asked x) (s t : σ) (u : Unit) (t' : σ)
    (hst : SameQuestions asked s t) (hrun : call x t = .ok u t') : SameQuestions asked s t' := by
  have ht := h t
  rw [call_eq_ok.mp hrun, Option.map_some] at ht
  exact hst.trans (Prod.mk.inj (Option.some.inj ht)).2.symm

theorem follows_unwrap_self (x : Option α) :
    Follows (SameQuestions asked) (· = ·) (unwrap x : EStateM Interrupt σ α) (unwrap x) := by
  intro s t a t' hst hrun
  obtain ⟨hx, rfl⟩ := unwrap_eq_ok.mp hrun
  exact ⟨a, s, unwrap_eq_ok.mpr ⟨hx, rfl⟩, hst, rfl⟩

/-- Where both runners ask the same question, they go on in the same way. -/
theorem follows_ask {β : Type} {R : β → β → Prop}
    {x : List CapabilityAgent → CapabilityAgent → StateT σ Option (Decision F)}
    (members : List Nat) (candidate : Nat)
    (hx : ∀ coalition agent, ∃ question, Answered asked respond question (x coalition agent))
    {f g : Decision F → EStateM Interrupt σ β}
    (hfg : ∀ decision, Follows (SameQuestions asked) R (f decision) (g decision)) :
    Follows (SameQuestions asked) R
      (do let coalition ← views agents members
          let agent ← unwrap agents[candidate]?
          let decision ← call (x coalition agent)
          f decision)
      (do let coalition ← views agents members
          let agent ← unwrap agents[candidate]?
          let decision ← call (x coalition agent)
          g decision) := by
  refine (follows_unwrap_self _).bind fun coalition _ hcoalition ↦ ?_
  subst hcoalition
  refine (follows_unwrap_self _).bind fun agent _ hagent ↦ ?_
  subst hagent
  obtain ⟨question, hquestion⟩ := hx coalition agent
  refine hquestion.follows.bind fun decision _ hdecision ↦ ?_
  subst hdecision
  exact hfg decision

/-- The arrivals join or not, as they do in the other run. -/
theorem follows_joins_self (h : policy.Answers asked respond) (arrival : List Nat) :
    Follows (SameQuestions asked)
      (fun members members' ↦ members = members' ∧ members.Sublist arrival)
      (joins policy agents ctx arrival) (joins policy agents ctx arrival) := by
  cases arrival with
  | nil => exact follows_pure ⟨rfl, List.Sublist.refl _⟩
  | cons first arrivals =>
      suffices hfrom : ∀ front members : List Nat, members.Sublist front →
          Follows (SameQuestions asked)
            (fun members members' ↦ members = members' ∧ members.Sublist (front ++ arrivals))
            (arrivals.foldlM (askJoin policy agents ctx) members)
            (arrivals.foldlM (askJoin policy agents ctx) members) from
        hfrom [first] [first] (List.Sublist.refl _)
      induction arrivals with
      | nil =>
          intro front members hmembers
          exact follows_pure ⟨rfl, hmembers.trans (List.sublist_append_left _ _)⟩
      | cons candidate arrivals ih =>
          intro front members hmembers
          rw [List.foldlM_cons]
          have hask : Follows (SameQuestions asked)
              (fun members members' ↦ members = members' ∧ members.Sublist (front ++ [candidate]))
              (askJoin policy agents ctx members candidate)
              (askJoin policy agents ctx members candidate) := by
            refine follows_ask members candidate
              (fun coalition agent ↦ ⟨_, h.joins agent coalition ctx⟩) fun decision ↦ ?_
            refine follows_pure ⟨rfl, ?_⟩
            cases decision.act with
            | true => exact hmembers.append (List.Sublist.refl _)
            | false => exact hmembers.trans (List.sublist_append_left _ _)
          refine hask.bind fun members' _ hmembers' ↦ ?_
          obtain ⟨rfl, hsub⟩ := hmembers'
          have hrest := ih (front ++ [candidate]) members' hsub
          rw [List.append_assoc] at hrest
          exact hrest

/-- A member is looked up where it is. -/
theorem exists_findIdx {members : List Nat} {idx : Nat} (h : idx ∈ members) :
    ∃ pos, members.findIdx? (· = idx) = some pos ∧ members.eraseIdx pos = members.erase idx := by
  cases hpos : members.findIdx? (· = idx) with
  | none =>
      have hne := List.findIdx?_eq_none_iff.mp hpos idx h
      rw [decide_eq_true rfl] at hne
      cases hne
  | some pos =>
      have hindex : members.idxOf? idx = some pos := hpos
      refine ⟨pos, rfl, ?_⟩
      rw [List.erase_eq_eraseIdx, hindex]

theorem findIdx_eq_none {members : List Nat} {idx : Nat} (h : idx ∉ members) :
    members.findIdx? (· = idx) = none := by
  rw [List.findIdx?_eq_none_iff]
  intro m hm
  exact decide_eq_false fun heq ↦ h (heq ▸ hm)

/-- The sweep over the arrivals asks those of them that are members, each of them once. -/
theorem follows_sweep (h : policy.Answers asked respond) {rest members : List Nat}
    (hrest : rest.Nodup) (hmembers : members.Nodup) (churn : Nat) :
    Follows (SameQuestions asked) (fun acc acc' ↦ acc = acc' ∧ acc.1.Sublist members)
      ((rest.filter (· ∈ members)).foldlM (Flat.askLeave policy agents ctx) (members, churn))
      (rest.foldlM (askLeave policy agents ctx) (members, churn)) := by
  induction rest generalizing members churn with
  | nil => exact follows_pure ⟨rfl, List.Sublist.refl _⟩
  | cons idx rest ih =>
      obtain ⟨hidx, hrest⟩ := List.nodup_cons.mp hrest
      rw [List.foldlM_cons]
      by_cases hmem : idx ∈ members
      · have hcons : (idx :: rest).filter (· ∈ members) = idx :: rest.filter (· ∈ members) :=
          List.filter_cons_of_pos (decide_eq_true hmem)
        rw [hcons, List.foldlM_cons]
        obtain ⟨pos, hpos, herase⟩ := exists_findIdx hmem
        -- nobody but the agent that is asked has left when the next one is
        have hask : Follows (SameQuestions asked)
            (fun acc acc' ↦ acc = acc' ∧ acc.1.Nodup ∧ acc.1.Sublist members ∧
              ∀ i ∈ rest, i ∈ acc.1 ↔ i ∈ members)
            (Flat.askLeave policy agents ctx (members, churn) idx)
            (askLeave policy agents ctx (members, churn) idx) := by
          simp only [askLeave, Flat.askLeave, hpos]
          refine follows_ask members idx
            (fun coalition agent ↦ ⟨_, h.leaves agent coalition ctx⟩) fun decision ↦ ?_
          refine follows_pure ?_
          cases decision.act with
          | false => exact ⟨rfl, hmembers, List.Sublist.refl _, fun _ _ ↦ Iff.rfl⟩
          | true =>
              have hfilter : members.eraseIdx pos = members.filter (· ≠ idx) := by
                rw [herase, hmembers.erase_eq_filter]
                exact List.filter_congr fun i _ ↦ (decide_not ..).symm
              rw [hfilter]
              refine ⟨rfl, hmembers.filter _, List.filter_sublist, fun i hi ↦ ?_⟩
              have hne : i ≠ idx := fun heq ↦ hidx (heq ▸ hi)
              simp [hne]
        refine hask.bind fun acc _ hacc ↦ ?_
        obtain ⟨rfl, hnodup, hsub, hsame⟩ := hacc
        obtain ⟨members', churn'⟩ := acc
        have hsame' : rest.filter (· ∈ members) = rest.filter (· ∈ members') :=
          List.filter_congr fun i hi ↦ decide_eq_decide.mpr (hsame i hi).symm
        rw [hsame']
        exact (ih hrest hnodup churn').imp fun _ _ hacc ↦ ⟨hacc.1, hacc.2.trans hsub⟩
      · have hnone : askLeave policy agents ctx (members, churn) idx = pure (members, churn) := by
          simp only [askLeave, findIdx_eq_none hmem]
        rw [List.filter_cons_of_neg (by simp [hmem]), hnone, pure_bind]
        exact ih hrest hmembers churn

/-- Among arrivals without duplicates, the members are found in their order. -/
theorem filter_mem_of_sublist {members arrival : List Nat} (harrival : arrival.Nodup)
    (h : members.Sublist arrival) : arrival.filter (· ∈ members) = members := by
  induction h with
  | slnil => rfl
  | cons idx h ih =>
      obtain ⟨hidx, hnodup⟩ := List.nodup_cons.mp harrival
      rw [List.filter_cons_of_neg, ih hnodup]
      rw [decide_eq_true_eq]
      exact fun hmem ↦ hidx (h.subset hmem)
  | @cons_cons members rest idx h ih =>
      obtain ⟨hidx, hnodup⟩ := List.nodup_cons.mp harrival
      have htail : rest.filter (· ∈ idx :: members) = rest.filter (· ∈ members) := by
        refine List.filter_congr fun i hi ↦ decide_eq_decide.mpr ?_
        rw [List.mem_cons, or_iff_right]
        rintro rfl
        exact hidx hi
      have hhead : (idx :: rest).filter (· ∈ idx :: members) =
          idx :: rest.filter (· ∈ idx :: members) :=
        List.filter_cons_of_pos (decide_eq_true List.mem_cons_self)
      rw [hhead, htail, ih hnodup]

/-- The members leave or not, as they do in the other run. -/
theorem follows_leaves_self (h : policy.Answers asked respond) {arrival members : List Nat}
    (harrival : arrival.Nodup) (hmembers : members.Sublist arrival) (churn : Nat) :
    Follows (SameQuestions asked) (fun acc acc' ↦ acc = acc' ∧ acc.1.Sublist members)
      (Flat.leaves policy agents ctx members churn)
      (leaves policy agents ctx arrival members churn) := by
  have hsweep : Follows (SameQuestions asked) (fun acc acc' ↦ acc = acc' ∧ acc.1.Sublist members)
      ((arrival.filter (· ∈ members)).foldlM (Flat.askLeave policy agents ctx) (members, churn))
      (arrival.foldlM (askLeave policy agents ctx) (members, churn)) :=
    follows_sweep h harrival (harrival.sublist hmembers) churn
  rw [filter_mem_of_sublist harrival hmembers] at hsweep
  exact hsweep

/-- The coalitions are made of agents of the pool. -/
def InPool (agents : List CapabilityAgent) (ends : List (List Nat)) : Prop :=
  ∀ members ∈ ends, ∀ i ∈ members, i < agents.length

theorem InPool.concat {ends : List (List Nat)} {members : List Nat} (h : InPool agents ends)
    (hmembers : ∀ i ∈ members, i < agents.length) : InPool agents (ends ++ [members]) := by
  intro members' hmem
  rcases List.mem_append.mp hmem with hmem | hmem
  · exact h members' hmem
  · rw [List.mem_singleton.mp hmem]
    exact hmembers

theorem exists_union {members : List Nat} (h : ∀ i ∈ members, i < agents.length) :
    ∃ union, Flat.union agents members = some union :=
  exists_foldlM (fun _ i hi ↦ by
    rw [List.getElem?_eq_getElem (h i hi)]
    exact ⟨_, rfl⟩) 0

theorem exists_memberOutcomes {members : List Nat} (h : ∀ i ∈ members, i < agents.length)
    (performed : Nat → Bool) :
    ∃ outcomes, memberOutcomes agents members performed = some outcomes :=
  exists_mapM fun i hi ↦ by
    rw [List.getElem?_eq_getElem (h i hi)]
    exact ⟨_, rfl⟩

/-- What may panic, but does not here. -/
theorem ends_unwrap_same {x : Option α} {a : α} (hx : x = some a) (s t : σ)
    (hst : SameQuestions asked s t) :
    ∃ s', (unwrap x : EStateM Interrupt σ α) s = .ok a s' ∧ SameQuestions asked s' t :=
  ⟨s, unwrap_eq_ok.mpr ⟨hx, rfl⟩, hst⟩

/-- What may panic asks no question. -/
theorem unwrap_keeps {x : Option α} (s t : σ) (a : α) (t' : σ) (hst : SameQuestions asked s t)
    (hrun : (unwrap x : EStateM Interrupt σ α) t = .ok a t') : SameQuestions asked s t' := by
  rw [← (unwrap_eq_ok.mp hrun).2]
  exact hst

/-- One task ends in the same way in both runs. -/
theorem follows_endTask (h : policy.Answers asked respond) {inst : WorkflowInstance}
    {signal : OutcomeSignal} {performance : Option (List (List Bool))} {task : WorkflowTask}
    {t : Nat} {acc : List (List Nat) × Nat} (hnodup : task.arrival.Nodup)
    (harrival : ∀ i ∈ task.arrival, i < inst.agents.length) (hacc : InPool inst.agents acc.1) :
    Follows (SameQuestions asked) (fun acc acc' ↦ acc = acc' ∧ InPool inst.agents acc.1)
      (Flat.endTask policy inst.agents acc task.flat)
      (endTask policy inst signal performance acc (task, t)) := by
  refine Follows.silent_bind (h.begins _).ends ?_
  refine Follows.bind_silent fun s t _ t' hst hrun ↦
    ⟨(h.begins _).keeps s t _ t' hst hrun, ?_⟩
  refine (follows_joins_self h task.arrival).bind fun members _ hmembers ↦ ?_
  obtain ⟨rfl, hsub⟩ := hmembers
  refine (follows_leaves_self h hnodup hsub acc.2).bind fun left _ hleft ↦ ?_
  obtain ⟨rfl, hleft⟩ := hleft
  obtain ⟨left, churn⟩ := left
  have hpool : ∀ i ∈ left, i < inst.agents.length :=
    fun i hi ↦ harrival i ((hleft.trans hsub).subset hi)
  obtain ⟨union, hunion⟩ := exists_union hpool
  obtain ⟨outcomes, houtcomes⟩ := exists_memberOutcomes hpool fun _ ↦ true
  -- the scores are not looked at, and what the policy is told of them is ignored
  refine Follows.silent_bind (ends_unwrap_same hunion) ?_
  refine Follows.silent_bind (ends_unwrap_same houtcomes) ?_
  refine Follows.silent_bind (h.observes _ _ _).ends ?_
  refine Follows.bind_silent fun s t _ t' hst hrun ↦ ⟨unwrap_keeps s t _ t' hst hrun, ?_⟩
  refine Follows.bind_silent fun s t _ t' hst hrun ↦ ⟨unwrap_keeps s t _ t' hst hrun, ?_⟩
  refine Follows.bind_silent fun s t _ t' hst hrun ↦
    ⟨(h.observes _ _ _).keeps s t _ t' hst hrun, ?_⟩
  exact follows_pure ⟨rfl, hacc.concat hpool⟩

/-- All tasks end in the same way in both runs. -/
theorem follows_coalitions (h : policy.Answers asked respond) {inst : WorkflowInstance}
    (hvalid : inst.ValidArrivals) (hnodup : ∀ task ∈ inst.tasks, task.arrival.Nodup)
    (signal : OutcomeSignal) :
    Follows (SameQuestions asked) (fun acc acc' ↦ acc = acc' ∧ InPool inst.agents acc.1)
      (Flat.coalitions policy inst.flat) (coalitions policy inst signal) := by
  refine Follows.bind_silent fun s t performance t' hst hrun ↦ ⟨?_, ?_⟩
  · rw [← (look_eq_ok.mp hrun).2]
    exact hst
  · have hmap : inst.flat.tasks = inst.tasks.zipIdx.map fun p ↦ p.1.flat := by
      have hcomp : (fun p : WorkflowTask × Nat ↦ p.1.flat) = WorkflowTask.flat ∘ Prod.fst := rfl
      rw [hcomp, ← List.map_map, List.zipIdx_map_fst, WorkflowInstance.flat]
    rw [Flat.coalitions, hmap, List.foldlM_map]
    refine Follows.foldlM (fun task htask acc acc' hacc ↦ ?_) ⟨rfl, ?_⟩
    · obtain ⟨rfl, hpool⟩ := hacc
      have hmem := List.fst_mem_of_mem_zipIdx htask
      exact follows_endTask h (hnodup _ hmem) (hvalid _ hmem) hpool
    · exact fun members hmembers ↦ absurd hmembers List.not_mem_nil

end Follows

/-! ## The scores of the coalitions -/

/-- Whether a task that ends with these members counts as a success. -/
def succeeds (inst : WorkflowInstance) (task : WorkflowTask) (members : List Nat) : Bool :=
  0 < task.demand.distinctLen &&
    task.demand.distinct.countP (Recon.stepCovered inst members) = task.demand.distinctLen

/-- How efficient the members are. -/
def efficiency [Zero F] [NatCast F] [Div F] (inst : WorkflowInstance) (task : WorkflowTask)
    (members : List Nat) : F :=
  if members.isEmpty ∨ task.demand.distinctLen = 0 then 0
  else (task.demand.distinct.countP (Recon.stepCovered inst members) : F) /
    (task.demand.distinctLen : F) / (members.length : F)

/-- Whether a task that ends with these members counts as a success, as they performed. -/
def performedSucceeds (inst : WorkflowInstance) (performance : Option (List (List Bool))) (t : Nat)
    (task : WorkflowTask) (members : List Nat) : Bool :=
  let row := performanceRow performance t
  0 < task.demand.distinctLen &&
    task.demand.distinct.countP (stepCoveredPerformed inst members · row) =
      task.demand.distinctLen

/-- How efficient the members are, as they performed. -/
def performedEfficiency [Zero F] [NatCast F] [Div F] (inst : WorkflowInstance)
    (performance : Option (List (List Bool))) (t : Nat) (task : WorkflowTask)
    (members : List Nat) : F :=
  let row := performanceRow performance t
  if members.length = 0 ∨ task.demand.distinctLen = 0 then 0
  else (task.demand.distinct.countP (stepCoveredPerformed inst members · row) : F) /
    (task.demand.distinctLen : F) / (members.length : F)

namespace Flat

/-- Whether a task that ends with these members counts as completed. -/
def completes (agents : List CapabilityAgent) (task : Task) (members : List Nat) : Bool :=
  (union agents members).any fun union ↦ union &&& task.required = task.required

/-- How efficient the members are. -/
def efficiency [Zero F] [One F] [NatCast F] [Div F] (agents : List CapabilityAgent) (task : Task)
    (members : List Nat) : F :=
  (union agents members).elim 0 fun union ↦ covEff union task.required members.length

end Flat

section Scores

variable [Zero F] [NatCast F] [Add F] [Div F]
variable {policy : Policy σ F} {inst : WorkflowInstance} {signal : OutcomeSignal}
  {performance : Option (List (List Bool))}

theorem score_eq {t : Nat} {task : WorkflowTask} {members : List Nat} {churn : Nat}
    {tally tally' : Tally F}
    (h : scoreTask inst performance t task members churn tally = some tally') :
    tally'.churn = churn ∧
      tally'.successCount = tally.successCount + (succeeds inst task members).toNat ∧
      tally'.covEffSum = tally.covEffSum + efficiency inst task members ∧
      (performance.isSome →
        tally'.performedSuccessCount = tally.performedSuccessCount +
          (performedSucceeds inst performance t task members).toNat ∧
        tally'.performedCovEffSum =
          tally.performedCovEffSum + performedEfficiency inst performance t task members) := by
  obtain ⟨covered, hcovered, h⟩ := Option.bind_eq_some_iff.mp h
  have hcount : task.demand.distinct.countP (Recon.stepCovered inst members) = covered :=
    countP_of_countM (fun _ _ _ hc ↦ stepCovered_eq hc) hcovered
  subst hcount
  have hsuccess : (if succeeds inst task members then tally.successCount + 1
      else tally.successCount) = tally.successCount + (succeeds inst task members).toNat := by
    cases succeeds inst task members <;> rfl
  cases performance with
  | none =>
      cases h
      exact ⟨rfl, hsuccess, rfl, fun hsome ↦ nomatch hsome⟩
  | some rows =>
      cases h
      exact ⟨rfl, hsuccess, rfl, fun _ ↦ ⟨rfl, rfl⟩⟩

/-- A task that is run ends with members, and their scores are added. -/
theorem endTask_of_runTask {task : WorkflowTask × Nat} {tally tally' : Tally F} {s s' : σ}
    (h : runTask policy inst signal performance tally task s = .ok tally' s')
    (ends : List (List Nat)) :
    ∃ members, endTask policy inst signal performance (ends, tally.churn) task s =
        .ok (ends ++ [members], tally'.churn) s' ∧
      tally'.successCount = tally.successCount + (succeeds inst task.1 members).toNat ∧
      tally'.covEffSum = tally.covEffSum + efficiency inst task.1 members ∧
      (performance.isSome →
        tally'.performedSuccessCount = tally.performedSuccessCount +
          (performedSucceeds inst performance task.2 task.1 members).toNat ∧
        tally'.performedCovEffSum = tally.performedCovEffSum +
          performedEfficiency inst performance task.2 task.1 members) := by
  obtain ⟨task, t⟩ := task
  obtain ⟨_, s₁, hbegin, h⟩ := bind_eq_ok.mp h
  obtain ⟨members, s₂, hjoins, h⟩ := bind_eq_ok.mp h
  obtain ⟨⟨left, churn⟩, s₃, hleaves, h⟩ := bind_eq_ok.mp h
  obtain ⟨_, s₄, hunwrap, h⟩ := bind_eq_ok.mp h
  obtain ⟨hscore, rfl⟩ := unwrap_eq_ok.mp hunwrap
  obtain ⟨hchurn, hscores⟩ := score_eq hscore
  obtain ⟨bits, s₅, hbits, h⟩ := bind_eq_ok.mp h
  obtain ⟨outcomes, s₆, houtcomes, h⟩ := bind_eq_ok.mp h
  obtain ⟨_, s₇, hobserve, h⟩ := bind_eq_ok.mp h
  obtain ⟨rfl, rfl⟩ := pure_eq_ok.mp h
  refine ⟨left, ?_, hscores⟩
  refine bind_eq_ok.mpr ⟨_, s₁, hbegin, bind_eq_ok.mpr ⟨members, s₂, hjoins, ?_⟩⟩
  refine bind_eq_ok.mpr ⟨(left, churn), s₃, hleaves, bind_eq_ok.mpr ⟨bits, s₅, hbits, ?_⟩⟩
  refine bind_eq_ok.mpr ⟨outcomes, s₆, houtcomes, bind_eq_ok.mpr ⟨_, s₇, hobserve, ?_⟩⟩
  rw [hchurn]
  rfl

/-- The tasks that are run end with members each, and their scores are added up. -/
theorem endTasks_of_runTasks {tasks : List (WorkflowTask × Nat)} {tally tally' : Tally F} {s s' : σ}
    (h : tasks.foldlM (runTask policy inst signal performance) tally s = .ok tally' s')
    (ends : List (List Nat)) :
    ∃ new, new.length = tasks.length ∧
      tasks.foldlM (endTask policy inst signal performance) (ends, tally.churn) s =
        .ok (ends ++ new, tally'.churn) s' ∧
      tally'.successCount = tally.successCount +
        ((tasks.map Prod.fst).zip new).countP (fun p ↦ succeeds inst p.1 p.2) ∧
      tally'.covEffSum = ((tasks.map Prod.fst).zip new).foldl
        (fun sum p ↦ sum + efficiency inst p.1 p.2) tally.covEffSum ∧
      (performance.isSome →
        tally'.performedSuccessCount = tally.performedSuccessCount +
          (tasks.zip new).countP (fun p ↦ performedSucceeds inst performance p.1.2 p.1.1 p.2) ∧
        tally'.performedCovEffSum = (tasks.zip new).foldl
          (fun sum p ↦ sum + performedEfficiency inst performance p.1.2 p.1.1 p.2)
          tally.performedCovEffSum) := by
  induction tasks generalizing tally s ends with
  | nil =>
      obtain ⟨rfl, rfl⟩ := pure_eq_ok.mp h
      exact ⟨[], rfl, by rw [List.append_nil]; rfl, rfl, rfl, fun _ ↦ ⟨rfl, rfl⟩⟩
  | cons task tasks ih =>
      rw [List.foldlM_cons] at h
      obtain ⟨mid, t, htask, h⟩ := bind_eq_ok.mp h
      obtain ⟨members, hend, hsuccess, hefficiency, hperformed⟩ := endTask_of_runTask htask ends
      obtain ⟨new, hlength, hends, hcount, hsum, hperformeds⟩ := ih h (ends ++ [members])
      refine ⟨members :: new, by rw [List.length_cons, List.length_cons, hlength], ?_, ?_, ?_,
        fun hsome ↦ ⟨?_, ?_⟩⟩
      · rw [List.foldlM_cons]
        refine bind_eq_ok.mpr ⟨_, t, hend, ?_⟩
        rw [hends, List.append_assoc]
        rfl
      · rw [hcount, hsuccess, List.map_cons, List.zip_cons_cons, List.countP_cons]
        cases succeeds inst task.1 members with
        | true => simp; omega
        | false => simp
      · rw [hsum, hefficiency]
        rfl
      · rw [(hperformeds hsome).1, (hperformed hsome).1, List.zip_cons_cons, List.countP_cons]
        cases performedSucceeds inst performance task.2 task.1 members with
        | true => simp; omega
        | false => simp
      · rw [(hperformeds hsome).2, (hperformed hsome).2]
        rfl

/-- An instance that is run ends with coalitions. -/
theorem coalitions_of_run [Mul F] {s s' : σ} {result : WorkflowResult F}
    (h : runWorkflowInstance policy inst signal s = .ok result s') :
    ∃ ends, coalitions policy inst signal s = .ok (ends, result.churn) s' := by
  obtain ⟨performance, tally, hrows, hruns, rfl⟩ := run_eq_ok.mp h
  obtain ⟨ends, -, hends, -⟩ := endTasks_of_runTasks hruns []
  refine ⟨ends, bind_eq_ok.mpr ⟨performance, s, look_eq_ok.mpr ⟨?_, rfl⟩, hends⟩⟩
  rw [hrows]
  rfl

namespace Flat

variable [One F] {agents : List CapabilityAgent}

/-- A task that ends with members can be run, and their scores are added. -/
theorem runTask_of_endTask {task : Task} {tally : Tally F} {ends : List (List Nat)}
    {acc : List (List Nat) × Nat} {s s' : σ}
    (h : endTask policy agents (ends, tally.churn) task s = .ok acc s') :
    ∃ members tally', acc = (ends ++ [members], tally'.churn) ∧
      runTask policy agents tally task s = .ok tally' s' ∧
      tally'.completed = tally.completed + (completes agents task members).toNat ∧
      tally'.covEffSum = tally.covEffSum + efficiency agents task members := by
  obtain ⟨_, s₁, hbegin, h⟩ := bind_eq_ok.mp h
  obtain ⟨members, s₂, hjoins, h⟩ := bind_eq_ok.mp h
  obtain ⟨⟨left, churn⟩, s₃, hleaves, h⟩ := bind_eq_ok.mp h
  obtain ⟨union, s₄, hunion, h⟩ := bind_eq_ok.mp h
  obtain ⟨outcomes, s₅, houtcomes, h⟩ := bind_eq_ok.mp h
  obtain ⟨_, s₆, hobserve, h⟩ := bind_eq_ok.mp h
  obtain ⟨rfl, rfl⟩ := pure_eq_ok.mp h
  refine ⟨left, tally.score union task.required left.length churn, rfl, ?_, ?_, ?_⟩
  · refine bind_eq_ok.mpr ⟨_, s₁, hbegin, bind_eq_ok.mpr ⟨members, s₂, hjoins, ?_⟩⟩
    refine bind_eq_ok.mpr ⟨(left, churn), s₃, hleaves, bind_eq_ok.mpr ⟨union, s₄, hunion, ?_⟩⟩
    exact bind_eq_ok.mpr ⟨outcomes, s₅, houtcomes, bind_eq_ok.mpr ⟨_, s₆, hobserve, rfl⟩⟩
  · rw [completes, (unwrap_eq_ok.mp hunion).1, Tally.score, Option.any_some]
    by_cases hcovers : union &&& task.required = task.required
    · simp [hcovers]
    · simp [hcovers]
  · rw [efficiency, (unwrap_eq_ok.mp hunion).1]
    rfl

theorem runTasks_of_endTasks {tasks : List Task} {tally : Tally F} {ends : List (List Nat)}
    {acc : List (List Nat) × Nat} {s s' : σ}
    (h : tasks.foldlM (endTask policy agents) (ends, tally.churn) s = .ok acc s') :
    ∃ new tally', acc = (ends ++ new, tally'.churn) ∧
      tasks.foldlM (runTask policy agents) tally s = .ok tally' s' ∧
      tally'.completed = tally.completed +
        (tasks.zip new).countP (fun p ↦ completes agents p.1 p.2) ∧
      tally'.covEffSum = (tasks.zip new).foldl
        (fun sum p ↦ sum + efficiency agents p.1 p.2) tally.covEffSum := by
  induction tasks generalizing tally s ends with
  | nil =>
      obtain ⟨rfl, rfl⟩ := pure_eq_ok.mp h
      exact ⟨[], tally, by rw [List.append_nil], rfl, rfl, rfl⟩
  | cons task tasks ih =>
      rw [List.foldlM_cons] at h
      obtain ⟨mid, t, htask, h⟩ := bind_eq_ok.mp h
      obtain ⟨members, tally₁, rfl, hrun, hcompleted, hefficiency⟩ := runTask_of_endTask htask
      obtain ⟨new, tally', rfl, hruns, hcount, hsum⟩ := ih h
      refine ⟨members :: new, tally', by rw [List.append_assoc]; rfl, ?_, ?_, ?_⟩
      · rw [List.foldlM_cons]
        exact bind_eq_ok.mpr ⟨tally₁, t, hrun, hruns⟩
      · rw [hcount, hcompleted, List.zip_cons_cons, List.countP_cons]
        cases completes agents task members with
        | true => simp; omega
        | false => simp
      · rw [hsum, hefficiency]
        rfl

end Flat

end Scores

/-! ## A covered step is a covered bit -/

/-- The demand names one step for each of its bits. -/
def OneStepPerBit (demand : Demand) : Prop :=
  ∀ b, Holds (requiredMask demand) b → ∃! step, step ∈ demand.distinct ∧ step.bit.toNat = b

section Coverage

variable {inst : WorkflowInstance} {task : WorkflowTask} {members : List Nat} {union : UInt32}

/-- What a member is capable of, all are together. -/
theorem holds_union {agents : List CapabilityAgent}
    (h : Flat.union agents members = some union) {i : Nat} (hi : i ∈ members)
    {agent : CapabilityAgent} (hagent : agents[i]? = some agent) {b : Nat}
    (hb : Holds agent.capabilities b) : Holds union b := by
  suffices hfrom : ∀ start, members.foldlM (fun acc m ↦ do
      let agent ← agents[m]?
      return acc ||| agent.capabilities) start = some union →
      Holds start b ∨ i ∈ members → Holds union b from hfrom 0 h (.inr hi)
  clear h hi
  induction members with
  | nil =>
      intro start h hor
      cases h
      exact hor.resolve_right List.not_mem_nil
  | cons m members ih =>
      intro start h hor
      rw [List.foldlM_cons] at h
      obtain ⟨acc, hacc, h⟩ := Option.bind_eq_some_iff.mp h
      obtain ⟨agent', hagent', hacc⟩ := Option.bind_eq_some_iff.mp hacc
      cases hacc
      refine ih _ h ?_
      rw [holds_or, Bool.or_eq_true]
      rcases hor with hstart | hmem
      · exact .inl (.inl hstart)
      · rcases List.mem_cons.mp hmem with rfl | hmem
        · cases hagent.symm.trans hagent'
          exact .inl (.inr hb)
        · exact .inr hmem

theorem holds_of_stepCovered (h : Flat.union inst.agents members = some union) {step : Step}
    (hcovered : Recon.stepCovered inst members step = true) :
    step.bit.toNat < 32 ∧ Holds union step.bit.toNat := by
  unfold Recon.stepCovered at hcovered
  split at hcovered
  · cases hcovered
  · rename_i mask hmask
    obtain ⟨i, hi, hany⟩ := List.any_eq_true.mp hcovered
    obtain ⟨agent, hagent, hholds⟩ :=
      (Option.any_eq_true _ _).mp (Bool.and_eq_true_iff.mp hany).2
    unfold Step.capabilityMask at hmask
    split at hmask
    · rename_i hlt
      cases hmask
      exact ⟨hlt, holds_union h hi hagent
        ((and_single_ne_zero (c := step.bit.toUInt32) hlt).mp (of_decide_eq_true hholds))⟩
    · cases hmask

/-- A success is completed. -/
theorem completes_of_succeeds (hpool : ∀ i ∈ members, i < inst.agents.length)
    (h : succeeds inst task members = true) :
    Flat.completes inst.agents task.flat members = true := by
  obtain ⟨union, hunion⟩ := exists_union hpool
  have hall := List.countP_eq_length.mp (of_decide_eq_true (Bool.and_eq_true_iff.mp h).2)
  rw [Flat.completes, hunion, Option.any_some]
  refine decide_eq_true (ext fun b ↦ ?_)
  cases hb : Holds (requiredMask task.demand) b with
  | false => rw [holds_and, WorkflowTask.flat, hb, Bool.and_false]
  | true =>
      obtain ⟨-, step, hstep, rfl⟩ := holds_requiredMask.mp hb
      rw [holds_and, WorkflowTask.flat, hb, (holds_of_stepCovered hunion (hall step hstep)).2]
      rfl

theorem Demand.nodup (demand : Demand) : demand.distinct.Nodup := by
  refine demand.ascending.imp fun {a b} hbefore heq ↦ ?_
  subst heq
  rcases hbefore with hlt | ⟨-, hlt⟩
  · exact UInt8.lt_irrefl _ hlt
  · exact UInt8.lt_irrefl _ hlt

/-- There are as many bits as are covered. -/
theorem covered_le (h : OneStepPerBit task.demand)
    (hunion : Flat.union inst.agents members = some union) :
    task.demand.distinct.countP (Recon.stepCovered inst members) ≤
      countOnes (union &&& requiredMask task.demand) := by
  rw [List.countP_eq_length_filter, countOnes, List.countP_eq_length_filter,
    ← List.length_map (fun step : Step ↦ step.bit.toNat)]
  have hcovered : ∀ step ∈ task.demand.distinct.filter (Recon.stepCovered inst members),
      Holds union step.bit.toNat ∧ Holds (requiredMask task.demand) step.bit.toNat := by
    intro step hstep
    obtain ⟨hmem, hcovered⟩ := List.mem_filter.mp hstep
    obtain ⟨hlt, hholds⟩ := holds_of_stepCovered hunion hcovered
    exact ⟨hholds, holds_requiredMask.mpr ⟨hlt, step, hmem, rfl⟩⟩
  refine (List.Nodup.subperm ?_ fun b hb ↦ ?_).length_le
  · refine List.Nodup.map_on (fun step hstep step' hstep' heq ↦ ?_) (task.demand.nodup.filter _)
    obtain ⟨first, -, hfirst⟩ := h _ (hcovered step hstep).2
    rw [hfirst step ⟨(List.mem_filter.mp hstep).1, rfl⟩,
      hfirst step' ⟨(List.mem_filter.mp hstep').1, heq.symm⟩]
  · obtain ⟨step, hstep, rfl⟩ := List.mem_map.mp hb
    obtain ⟨hholds, hrequired⟩ := hcovered step hstep
    refine List.mem_filter.mpr ⟨List.mem_range.mpr (lt_of_holds hholds), ?_⟩
    rw [holds_and, hholds, hrequired]
    rfl

/-- There are no more bits than steps. -/
theorem required_le (demand : Demand) : countOnes (requiredMask demand) ≤ demand.distinctLen := by
  rw [Demand.distinctLen, countOnes, List.countP_eq_length_filter,
    ← List.length_map (fun step : Step ↦ step.bit.toNat)]
  refine (List.Nodup.subperm (List.nodup_range.filter _) fun b hb ↦ ?_).length_le
  obtain ⟨-, step, hstep, rfl⟩ := holds_requiredMask.mp (List.mem_filter.mp hb).2
  exact List.mem_map.mpr ⟨step, hstep, rfl⟩

end Coverage

/-- Numbers whose sums and quotients may be rounded, but never past each other, as are those
of floating-point numbers that are not negative. -/
structure RoundsInOrder (F : Type) [LE F] [Zero F] [One F] [NatCast F] [Add F] [Div F] : Prop where
  zero_le_zero : (0 : F) ≤ 0
  zero_le_one : (0 : F) ≤ 1
  /-- A larger part of fewer is larger. -/
  fraction_le {c c' d d' : Nat} : c ≤ c' → d' ≤ d → 0 < d' → (c : F) / (d : F) ≤ (c' : F) / (d' : F)
  fraction_nonneg {c d : Nat} : 0 < d → 0 ≤ (c : F) / (d : F)
  fraction_le_one {c d : Nat} : c ≤ d → 0 < d → (c : F) / (d : F) ≤ 1
  div_le {a b : F} {n : Nat} : 0 ≤ a → a ≤ b → 0 < n → a / (n : F) ≤ b / (n : F)
  div_nonneg {a : F} {n : Nat} : 0 ≤ a → 0 < n → 0 ≤ a / (n : F)
  add_le {a b c d : F} : 0 ≤ a → a ≤ b → 0 ≤ c → c ≤ d → a + c ≤ b + d
  add_nonneg {a b : F} : 0 ≤ a → 0 ≤ b → 0 ≤ a + b

section Efficiency

variable [LE F] [Zero F] [One F] [NatCast F] [Add F] [Div F]
variable {inst : WorkflowInstance} {task : WorkflowTask} {members : List Nat}

omit [LE F] [Add F] in
theorem Flat.covEff_of_pos {union required : UInt32} {n : Nat} (h : 0 < n) :
    (Flat.covEff union required n : F) =
      (if countOnes required = 0 then 1
        else (countOnes (union &&& required) : F) / (countOnes required : F)) / (n : F) :=
  if_neg (Nat.ne_of_gt h)

theorem efficiency_nonneg (hround : RoundsInOrder F) :
    (0 : F) ≤ efficiency inst task members := by
  unfold efficiency
  split
  · exact hround.zero_le_zero
  · rename_i hne
    rw [not_or, List.isEmpty_iff] at hne
    exact hround.div_nonneg (hround.fraction_nonneg (Nat.pos_of_ne_zero hne.2))
      (List.length_pos_iff.mpr hne.1)

/-- A coalition is no more efficient in covering steps than in covering bits. -/
theorem efficiency_le (hround : RoundsInOrder F) (h : OneStepPerBit task.demand)
    (hpool : ∀ i ∈ members, i < inst.agents.length) :
    (efficiency inst task members : F) ≤ Flat.efficiency inst.agents task.flat members := by
  obtain ⟨union, hunion⟩ := exists_union hpool
  have hcovered := covered_le h hunion
  have hrequired := required_le task.demand
  rw [Flat.efficiency, hunion, Option.elim_some, efficiency]
  by_cases hempty : members = []
  · subst hempty
    exact hround.zero_le_zero
  · have hlength : 0 < members.length := List.length_pos_iff.mpr hempty
    rw [Flat.covEff_of_pos hlength]
    by_cases hsteps : task.demand.distinctLen = 0
    · -- nothing is demanded, of which all is covered
      have hbits : countOnes task.flat.required = 0 := Nat.le_zero.mp (hsteps ▸ hrequired)
      rw [if_pos (.inr hsteps), if_pos hbits]
      exact hround.div_nonneg hround.zero_le_one hlength
    · have hsteps' := Nat.pos_of_ne_zero hsteps
      rw [if_neg (by rw [List.isEmpty_iff]; exact not_or.mpr ⟨hempty, hsteps⟩)]
      refine hround.div_le (hround.fraction_nonneg hsteps') ?_ hlength
      by_cases hbits : countOnes task.flat.required = 0
      · rw [if_pos hbits]
        exact hround.fraction_le_one List.countP_le_length hsteps'
      · rw [if_neg hbits]
        exact hround.fraction_le hcovered hrequired (Nat.pos_of_ne_zero hbits)

/-- Sums of smaller numbers are smaller. -/
theorem foldl_add_le {β : Type} (hround : RoundsInOrder F) {f g : β → F} {l : List β}
    (hnonneg : ∀ x ∈ l, 0 ≤ f x) (hle : ∀ x ∈ l, f x ≤ g x) {a b : F} (ha : 0 ≤ a) (hab : a ≤ b) :
    0 ≤ l.foldl (fun sum x ↦ sum + f x) a ∧
      l.foldl (fun sum x ↦ sum + f x) a ≤ l.foldl (fun sum x ↦ sum + g x) b := by
  induction l generalizing a b with
  | nil => exact ⟨ha, hab⟩
  | cons x l ih =>
      have hx := hnonneg x List.mem_cons_self
      refine ih (fun y hy ↦ hnonneg y (List.mem_cons_of_mem x hy))
        (fun y hy ↦ hle y (List.mem_cons_of_mem x hy)) (hround.add_nonneg ha hx) ?_
      exact hround.add_le ha hab hx (hle x List.mem_cons_self)

end Efficiency

/-! ## The refinement -/

/-- So many of so many. -/
def rate [Zero F] [NatCast F] [Div F] (n nTasks : Nat) : F :=
  if nTasks = 0 then 0 else (n : F) / (nTasks : F)

/-- What can be said of the two runs of one instance. -/
structure Refined [LE F] [Zero F] [One F] [NatCast F] [Add F] [Div F] (inst : WorkflowInstance)
    (ends : List (List Nat)) (result : WorkflowResult F) (flat : InstanceResult F) : Prop where
  churn : result.churn = flat.churn
  /-- There is a coalition for each task. -/
  length : ends.length = inst.tasks.length
  /-- A task that counts as a success in the one run counts as completed in the other. -/
  completes : ∀ p ∈ inst.tasks.zip ends, succeeds inst p.1 p.2 →
    Flat.completes inst.agents p.1.flat p.2
  successRate : result.successRate =
    rate ((inst.tasks.zip ends).countP fun p ↦ succeeds inst p.1 p.2) inst.tasks.length
  completionRate : flat.completionRate =
    rate ((inst.tasks.zip ends).countP fun p ↦ Flat.completes inst.agents p.1.flat p.2)
      inst.tasks.length
  meanCovEff : RoundsInOrder F → (∀ task ∈ inst.tasks, OneStepPerBit task.demand) →
    result.meanCovEff ≤ flat.meanCovEff

section Refinement

variable [LE F] [Zero F] [One F] [NatCast F] [Add F] [Mul F] [Div F]

/-- **The process-structured runner refines the flat one.**  Take any instance whose arrivals
are in the pool, each of them once, and any policy whose answers depend on the questions it
has been asked.  If the instance can be run, the flat instance can be run from every state
from which the same questions have been asked: with the same questions in the same order,
with the same coalition at the end of each task, and with the same churn.  What counts as a
success in the one run counts as completed in the other; and where every demand names one
step for each of its bits, the flat run is at least as efficient. -/
theorem workflow_refines_flat {policy : Policy σ F} {asked : σ → List Question}
    {respond : List Question → Option (Decision F)} (hpolicy : policy.Answers asked respond)
    (inst : WorkflowInstance) (hvalid : inst.ValidArrivals)
    (hnodup : ∀ task ∈ inst.tasks, task.arrival.Nodup) (signal : OutcomeSignal) {s s' t : σ}
    {result : WorkflowResult F} (h : runWorkflowInstance policy inst signal s = .ok result s')
    (hst : asked t = asked s) :
    ∃ (flat : InstanceResult F) (t' : σ) (ends : List (List Nat)),
      runInstance policy inst.flat t = .ok flat t' ∧ asked t' = asked s' ∧
      coalitions policy inst signal s = .ok (ends, result.churn) s' ∧
      Flat.coalitions policy inst.flat t = .ok (ends, flat.churn) t' ∧
      Refined inst ends result flat := by
  obtain ⟨performance, tally, hrows, hruns, rfl⟩ := run_eq_ok.mp h
  obtain ⟨ends, hlength, hends, hsuccess, hsum, -⟩ := endTasks_of_runTasks hruns []
  rw [List.zipIdx_map_fst] at hsuccess hsum
  rw [List.nil_append] at hends
  rw [List.length_zipIdx] at hlength
  have hcoalitions : coalitions policy inst signal s = .ok (ends, tally.churn) s' := by
    refine bind_eq_ok.mpr ⟨performance, s, look_eq_ok.mpr ⟨?_, rfl⟩, hends⟩
    rw [hrows]
    rfl
  obtain ⟨acc, t', hflat, hst', rfl, hpool⟩ :=
    follows_coalitions hpolicy hvalid hnodup signal t s _ s' hst hcoalitions
  have hstart : inst.flat.tasks.foldlM (Flat.endTask policy inst.agents)
      ([], (⟨0, 0, 0⟩ : Flat.Tally F).churn) t = .ok (ends, tally.churn) t' := hflat
  obtain ⟨new, flat, hacc, hrun, hcompleted, hflatSum⟩ := Flat.runTasks_of_endTasks hstart
  rw [List.nil_append] at hacc
  obtain ⟨rfl, hchurn⟩ := Prod.mk.inj hacc
  have hzip : inst.flat.tasks.zip ends =
      (inst.tasks.zip ends).map (Prod.map WorkflowTask.flat id) := List.zip_map_left ..
  rw [hzip, List.countP_map] at hcompleted
  rw [hzip, List.foldl_map] at hflatSum
  have hpool' : ∀ p ∈ inst.tasks.zip ends, ∀ i ∈ p.2, i < inst.agents.length :=
    fun p hp ↦ hpool p.2 (List.of_mem_zip hp).2
  refine ⟨.ofTally inst.flat flat, t', ends,
    bind_eq_ok.mpr ⟨flat, t', hrun, rfl⟩, hst', hcoalitions, ?_, ?_⟩
  · rw [hflat, hchurn]
    rfl
  · refine ⟨hchurn, hlength, fun p hp ↦ completes_of_succeeds (hpool' p hp), ?_, ?_, ?_⟩
    · simp only [WorkflowResult.ofTally, rate, hsuccess, Nat.zero_add]
      split
      · rfl
      · rfl
    · have hcount : inst.flat.tasks.length = inst.tasks.length := List.length_map _
      simp only [InstanceResult.ofTally, rate, hcompleted, Nat.zero_add, hcount]
      split
      · rfl
      · rfl
    · intro hround hone
      have hle := (foldl_add_le hround (a := 0) (b := 0) (l := inst.tasks.zip ends)
        (fun p _ ↦ efficiency_nonneg hround)
        (fun p hp ↦ efficiency_le hround (hone p.1 (List.of_mem_zip hp).1) (hpool' p hp))
        hround.zero_le_zero hround.zero_le_zero)
      have hcount : inst.flat.tasks.length = inst.tasks.length := List.length_map _
      simp only [WorkflowResult.ofTally, InstanceResult.ofTally, hcount]
      by_cases htasks : inst.tasks.length = 0
      · rw [if_pos htasks, if_pos htasks]
        exact hround.zero_le_zero
      · rw [if_neg htasks, if_neg htasks, hsum, hflatSum]
        exact hround.div_le hle.1 hle.2 (Nat.pos_of_ne_zero htasks)

end Refinement

/-! ## A run over two tasks -/

/-- Steps with bits of their own. -/
theorem oneStepPerBit_of_nodup {demand : Demand}
    (h : (demand.distinct.map fun step ↦ step.bit.toNat).Nodup) : OneStepPerBit demand := by
  intro b hb
  obtain ⟨-, step, hstep, rfl⟩ := holds_requiredMask.mp hb
  refine ⟨step, ⟨hstep, rfl⟩, ?_⟩
  rintro step' ⟨hstep', hbit⟩
  exact List.inj_on_of_nodup_map h hstep' hstep hbit

/-- Exact numbers are not rounded. -/
theorem roundsInOrder : RoundsInOrder ℚ where
  zero_le_zero := le_refl 0
  zero_le_one := zero_le_one
  fraction_le hc hd hpos :=
    div_le_div₀ (Nat.cast_nonneg _) (Nat.cast_le.mpr hc) (Nat.cast_pos.mpr hpos)
      (Nat.cast_le.mpr hd)
  fraction_nonneg _ := div_nonneg (Nat.cast_nonneg _) (Nat.cast_nonneg _)
  fraction_le_one hle _ := div_le_one_of_le₀ (Nat.cast_le.mpr hle) (Nat.cast_nonneg _)
  div_le _ hab _ := div_le_div_of_nonneg_right hab (Nat.cast_nonneg _)
  div_nonneg ha _ := div_nonneg ha (Nat.cast_nonneg _)
  add_le _ hab _ hcd := add_le_add hab hcd
  add_nonneg := add_nonneg

/-- A policy that remembers all that it has been asked, and answers by it. -/
def Question.policy (respond : List Question → Option (Decision F)) :
    Policy (List Question) F where
  shouldJoin agent coalition ctx asked :=
    let asked := asked ++ [⟨false, agent, coalition, ctx⟩]
    (respond asked).map (·, asked)
  shouldLeave agent coalition ctx asked :=
    let asked := asked ++ [⟨true, agent, coalition, ctx⟩]
    (respond asked).map (·, asked)
  beginTask _ := pure ()
  observeOutcome _ _ _ := pure ()

theorem Question.answers (respond : List Question → Option (Decision F)) :
    (Question.policy respond).Answers id respond where
  joins _ _ _ _ := Option.map_map ..
  leaves _ _ _ _ := Option.map_map ..
  begins _ _ := rfl
  observes _ _ _ _ := rfl

/-- The first two questions are answered by yes. -/
def Sample.respond (asked : List Question) : Option (Decision ℚ) :=
  some (if asked.length ≤ 2 then ⟨true, 1⟩ else ⟨false, 0⟩)

/-- The second agent joins the first one, who leaves; the flat run asks the same. -/
theorem the_sample_refines :
    ∃ (result : WorkflowResult ℚ) (flat : InstanceResult ℚ) (asked : List Question),
      runWorkflowInstance (Question.policy Sample.respond) Sample.inst .both [] =
        .ok result asked ∧
      runInstance (Question.policy Sample.respond) Sample.inst.flat [] = .ok flat asked ∧
      asked.length = 5 ∧ flat.churn = 1 ∧ result.meanCovEff ≤ flat.meanCovEff := by
  have hvalid : Sample.inst.ValidArrivals := by
    unfold WorkflowInstance.ValidArrivals
    decide
  have hcheck : ∃ result : WorkflowResult ℚ, ∃ asked : List Question,
      runWorkflowInstance (Question.policy Sample.respond) Sample.inst .both [] =
        .ok result asked ∧ asked.length = 5 ∧ result.churn = 1 :=
    ⟨_, _, rfl, rfl, rfl⟩
  obtain ⟨result, asked, hrun, hlength, hchurn⟩ := hcheck
  obtain ⟨flat, t', ends, hflat, rfl, -, -, hrefined⟩ := workflow_refines_flat
    (Question.answers Sample.respond) Sample.inst hvalid (by decide) .both hrun rfl
  refine ⟨result, flat, _, hrun, hflat, hlength, hrefined.churn.symm.trans hchurn,
    hrefined.meanCovEff roundsInOrder fun task htask ↦ oneStepPerBit_of_nodup ?_⟩
  revert task
  decide

end Koalisi.Harness
